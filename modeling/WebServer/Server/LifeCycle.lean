import WebServer.Library.Sessions
import WebServer.Server.Dispatch

/-!
# The life cycle of a connection

The tables of the server, against the purpose they have: a book of sessions, in
which every connected client has a context block to itself.  A failed accept costs
the book a block for which there is no client.

* `Represents` — the tables hold what the book says.
* `handleEvent_simulates` — every event is a step of the book.
* `represents_of_reachable` — every run of the loop is a run of the book.
* `consistent_of_reachable` — as long as accepts succeed, the tables agree.
-/

namespace WebServer

open Sessions

namespace ServerState

variable {H : Type}

/-! ## The tables -/

/-- The tables hold the open sessions and the lost blocks of a book. -/
structure Represents (s : ServerState H) (b : Book SocketHandle Addr) : Prop where
  openSockets : ∀ h, h ∈ s.openSockets ↔ (b.live h).isSome
  registrations : ∀ h, s.registrations.lookup h = (b.live h).map some
  connections : ∀ h, h ≠ -1 → s.connections.find h.toUInt32 = b.live h
  /-- Every failed accept overwrites the entry of the one before. -/
  failed : s.connections.find (-1 : SocketHandle).toUInt32 = b.lost.head?
  handle : ∀ h ctx, b.live h = some ctx → (s.contexts ctx).socket.handle = h
  lostHandle : ∀ ctx ∈ b.lost, (s.contexts ctx).socket.handle = -1
  handedOut : ∀ ctx, ctx ∈ s.connectionsMemPool.handedOut ↔ b.Holds ctx
  notServer : b.live s.serverSocket = none
  notFailed : b.live (-1) = none
  accounted : s.connectionsMemPool.Accounted
  blockSize : s.connectionsMemPool.blockSize = sizeofSocketContext
  maxAlloc : s.connectionsMemPool.maxAlloc = 100
  parser : s.parser.Reachable

/-- A server that enters its loop has no sessions. -/
theorem represents_boot (boot : Boot H) : Represents boot.state Book.empty where
  openSockets := fun h => by simp [Boot.state, Book.empty]
  registrations := fun h => by simp [Boot.state, Book.empty]
  connections := fun h _ => rfl
  failed := rfl
  handle := by
    intro h ctx hk
    cases hk
  lostHandle := by
    intro ctx hc
    cases hc
  handedOut := by
    intro ctx
    simp [Boot.state, MemoryPool.new, Book.not_holds_empty]
  notServer := rfl
  notFailed := rfl
  accounted := MemoryPool.accounted_new boot.blocks_nodup fun _ => by
    rw [boot.blocks_length]
    decide
  blockSize := rfl
  maxAlloc := rfl
  parser := .new .v11

/-- The second state has the tables of the first. -/
structure SameTables (s s' : ServerState H) : Prop where
  serverSocket : s'.serverSocket = s.serverSocket
  channel : s'.channel = s.channel
  connectionsMemPool : s'.connectionsMemPool = s.connectionsMemPool
  connections : s'.connections = s.connections
  contexts : s'.contexts = s.contexts
  registrations : s'.registrations = s.registrations
  openSockets : s'.openSockets = s.openSockets
  parser : s.parser.Reachable → s'.parser.Reachable

theorem SameTables.refl (s : ServerState H) : SameTables s s :=
  ⟨rfl, rfl, rfl, rfl, rfl, rfl, rfl, id⟩

theorem SameTables.trans {s s' s'' : ServerState H} (h : SameTables s s')
    (h' : SameTables s' s'') : SameTables s s'' where
  serverSocket := h'.serverSocket.trans h.serverSocket
  channel := h'.channel.trans h.channel
  connectionsMemPool := h'.connectionsMemPool.trans h.connectionsMemPool
  connections := h'.connections.trans h.connections
  contexts := h'.contexts.trans h.contexts
  registrations := h'.registrations.trans h.registrations
  openSockets := h'.openSockets.trans h.openSockets
  parser := h'.parser ∘ h.parser

theorem Represents.sameTables {s s' : ServerState H} {b : Book SocketHandle Addr}
    (hr : Represents s b) (h : SameTables s s') : Represents s' b where
  openSockets := by simpa [h.openSockets] using hr.openSockets
  registrations := by simpa [h.registrations] using hr.registrations
  connections := by simpa [h.connections] using hr.connections
  failed := by simpa [h.connections] using hr.failed
  handle := by simpa [h.contexts] using hr.handle
  lostHandle := by simpa [h.contexts] using hr.lostHandle
  handedOut := by simpa [h.connectionsMemPool] using hr.handedOut
  notServer := by simpa [h.serverSocket] using hr.notServer
  notFailed := hr.notFailed
  accounted := by simpa [h.connectionsMemPool] using hr.accounted
  blockSize := by simpa [h.connectionsMemPool] using hr.blockSize
  maxAlloc := by simpa [h.connectionsMemPool] using hr.maxAlloc
  parser := h.parser hr.parser

/-! ## Accepting -/

/-- The state after an accept that got the block `ctx` and filled in `value`. -/
def accepted (s : ServerState H) (pool : MemoryPool) (ctx : Addr) (value : SocketContext) :
    ServerState H :=
  { s with
    connectionsMemPool := pool
    contexts := Function.update s.contexts ctx value
    openSockets :=
      if value.socket.handle = -1 then s.openSockets
      else insert value.socket.handle s.openSockets
    lastConnection := some ctx
    connections := s.connections.insert value.socket.handle.toUInt32 ctx
    registrations :=
      if value.socket.handle = -1 then s.registrations
      else s.registrations.insert value.socket.handle (some ctx) }

theorem acceptSocket_eq (s : ServerState H) (descriptor : SocketHandle) :
    s.acceptSocket descriptor =
      { s with
        openSockets :=
          if descriptor = -1 then s.openSockets else insert descriptor s.openSockets } := by
  unfold acceptSocket
  split_ifs <;> rfl

/-- Both channels put the descriptor into the context, whatever `accept` returned. -/
theorem acceptConnection_eq (s : ServerState H) (ctx : Addr) {a : AcceptAnswer}
    (htls : s.channel = .secure → a.tlsResult = 0) :
    ∃ value : SocketContext, value.socket.handle = a.descriptor ∧
      s.acceptConnection ctx a =
        ({ s with
            contexts := Function.update s.contexts ctx value
            openSockets :=
              if a.descriptor = -1 then s.openSockets else insert a.descriptor s.openSockets },
          .ok ()) := by
  unfold acceptConnection
  simp only [acceptSocket_eq, setContext]
  cases hch : s.channel with
  | normal =>
    exact ⟨⟨(contextFromSocketHandle a.descriptor a.address).socket, (s.contexts ctx).tls, false⟩,
      rfl, rfl⟩
  | secure =>
    refine ⟨⟨(contextFromSocketHandle a.descriptor a.address).socket, a.tls, true⟩, rfl, ?_⟩
    simp [htls hch]

/-- **What an accept does**: it throws when a hundred blocks are handed out, and
otherwise enters a block that was not handed out into every table. -/
theorem handleNewConnectionEvent_cases {s : ServerState H} {b : Book SocketHandle Addr}
    (hr : Represents s b) {a : AcceptAnswer}
    (hblock : ¬ s.connectionsMemPool.Knows a.block)
    (htls : s.channel = .secure → a.tlsResult = 0) :
    (s.connectionsMemPool.handedOut.length = 100 ∧
        s.handleNewConnectionEvent a = (s, .error (.thrown MemoryPool.exhausted))) ∨
      (s.connectionsMemPool.handedOut.length < 100 ∧ ∃ pool ctx value,
        value.socket.handle = a.descriptor ∧ ¬ b.Holds ctx ∧
        pool.handedOut = ctx :: s.connectionsMemPool.handedOut ∧ pool.Accounted ∧
        pool.blockSize = s.connectionsMemPool.blockSize ∧
        pool.maxAlloc = s.connectionsMemPool.maxAlloc ∧
        (∀ x, pool.Knows x → x = a.block ∨ s.connectionsMemPool.Knows x) ∧
        s.handleNewConnectionEvent a = (s.accepted pool ctx value, .ok ())) := by
  have hsize : sizeofSocketContext ≤ s.connectionsMemPool.blockSize := by rw [hr.blockSize]
  have hclosed : (-1 : SocketHandle) ∉ s.openSockets := by
    rw [hr.openSockets, hr.notFailed]
    decide
  unfold handleNewConnectionEvent
  rw [MemoryPool.allocate_of_le hsize]
  rcases MemoryPool.getMemory_cases hr.accounted hblock with
    ⟨-, hfull, hget⟩ | ⟨hroom, pool, ctx, hget, hnew, hout, hbs, hmax, hacc, hknows⟩
  · rw [hr.maxAlloc] at hfull
    exact Or.inl ⟨hfull, by rw [hget]; rfl⟩
  · rw [hr.maxAlloc] at hroom
    have hlt : s.connectionsMemPool.handedOut.length < 100 := by
      rcases hroom with h | h
      · omega
      · exact h
    obtain ⟨value, hvalue, hacq⟩ :=
      acceptConnection_eq { s with connectionsMemPool := pool } ctx htls
    refine Or.inr ⟨hlt, pool, ctx, value, hvalue, ?_, hout, hacc, hbs, hmax, hknows, ?_⟩
    · rwa [← hr.handedOut]
    · rw [hget]
      simp only [Except.map, hacq]
      unfold registerContext onClientConnected kevent applyChange accepted
      simp only [Function.update_self, hvalue]
      by_cases hd : a.descriptor = -1
      · simp [hd, hclosed]
      · simp [hd]

/-! ## Simulation -/

/-- The session of a client that has been accepted. -/
theorem Represents.enroll {s : ServerState H} {b : Book SocketHandle Addr} (hr : Represents s b)
    {pool : MemoryPool} {ctx : Addr} {value : SocketContext} (hctx : ¬ b.Holds ctx)
    (hout : pool.handedOut = ctx :: s.connectionsMemPool.handedOut) (hacc : pool.Accounted)
    (hbs : pool.blockSize = s.connectionsMemPool.blockSize)
    (hmax : pool.maxAlloc = s.connectionsMemPool.maxAlloc)
    (hfail : value.socket.handle ≠ -1) (hserver : value.socket.handle ≠ s.serverSocket)
    (hclosed : b.live value.socket.handle = none) :
    Represents (s.accepted pool ctx value) (b.enroll value.socket.handle ctx) where
  openSockets := by
    intro h
    simp only [accepted, if_neg hfail, Finset.mem_insert, hr.openSockets, Book.live_enroll]
    split_ifs with hh <;> simp [hh]
  registrations := by
    intro h
    simp only [accepted, if_neg hfail, Book.live_enroll]
    split_ifs with hh
    · rw [hh, Finmap.lookup_insert, Option.map_some]
    · rw [Finmap.lookup_insert_of_ne _ hh, hr.registrations]
  connections := by
    intro h hne
    simp only [accepted, ConcurrentHashMap.find_insert, toUInt32_inj, Book.live_enroll,
      hr.connections h hne]
  failed := by
    simp only [accepted, ConcurrentHashMap.find_insert, toUInt32_inj, if_neg hfail.symm,
      hr.failed, Book.lost_enroll]
  handle := by
    intro h c hc
    rw [Book.live_enroll] at hc
    split_ifs at hc with hh
    · cases hc
      simp [accepted, hh]
    · have hne : c ≠ ctx := by
        rintro rfl
        exact hctx (Or.inl ⟨h, hc⟩)
      simp [accepted, Function.update_of_ne hne, hr.handle h c hc]
  lostHandle := by
    intro c hc
    have hne : c ≠ ctx := by
      rintro rfl
      exact hctx (Or.inr hc)
    simp [accepted, Function.update_of_ne hne, hr.lostHandle c hc]
  handedOut := by
    intro c
    rw [Book.holds_enroll hclosed]
    simp only [accepted, hout, List.mem_cons, hr.handedOut]
  notServer := by simp [accepted, hserver.symm, hr.notServer]
  notFailed := by simp [hfail.symm, hr.notFailed]
  accounted := hacc
  blockSize := hbs.trans hr.blockSize
  maxAlloc := hmax.trans hr.maxAlloc
  parser := hr.parser

/-- The block that a failed accept costs. -/
theorem Represents.lose {s : ServerState H} {b : Book SocketHandle Addr} (hr : Represents s b)
    {pool : MemoryPool} {ctx : Addr} {value : SocketContext} (hctx : ¬ b.Holds ctx)
    (hout : pool.handedOut = ctx :: s.connectionsMemPool.handedOut) (hacc : pool.Accounted)
    (hbs : pool.blockSize = s.connectionsMemPool.blockSize)
    (hmax : pool.maxAlloc = s.connectionsMemPool.maxAlloc) (hfail : value.socket.handle = -1) :
    Represents (s.accepted pool ctx value) (b.lose ctx) where
  openSockets := by simpa [accepted, hfail] using hr.openSockets
  registrations := by simpa [accepted, hfail] using hr.registrations
  connections := by
    intro h hne
    simp only [accepted, hfail, ConcurrentHashMap.find_insert, toUInt32_inj, if_neg hne,
      hr.connections h hne, Book.live_lose]
  failed := by simp [accepted, hfail]
  handle := by
    intro h c hc
    have hne : c ≠ ctx := by
      rintro rfl
      exact hctx (Or.inl ⟨h, hc⟩)
    simp only [accepted, Function.update_of_ne hne, hr.handle h c hc]
  lostHandle := by
    intro c hc
    rcases List.mem_cons.1 hc with rfl | hmem
    · simp [accepted, hfail]
    · have hne : c ≠ ctx := by
        rintro rfl
        exact hctx (Or.inr hmem)
      simp only [accepted, Function.update_of_ne hne, hr.lostHandle c hmem]
  handedOut := by
    intro c
    rw [Book.holds_lose]
    simp only [accepted, hout, List.mem_cons, hr.handedOut]
  notServer := hr.notServer
  notFailed := hr.notFailed
  accounted := hacc
  blockSize := hbs.trans hr.blockSize
  maxAlloc := hmax.trans hr.maxAlloc
  parser := hr.parser

/-! ## Disposing -/

/-- The tables after a disposal: everything about the handle of the context is gone. -/
theorem disconnected_tables (s : ServerState H) (ctx : Addr) :
    let s' := s.disconnected ctx
    let handle := (s.contexts ctx).socket.handle
    s'.serverSocket = s.serverSocket ∧ s'.parser = s.parser ∧
      s'.openSockets = s.openSockets.erase handle ∧
      s'.registrations = (s.registrations.erase handle).erase handle ∧
      s'.connections = s.connections.erase handle.toUInt32 ∧
      s'.connectionsMemPool = s.connectionsMemPool.release ctx true ∧
      ∀ c, (s'.contexts c).socket = (s.contexts c).socket := by
  unfold disconnected handleDisconnectionEvent disposeConnection onClientDisconnected
    registerSocket kevent applyChange closeSocket setContext
  simp only [Waited.outcome, Written.outcome, one_ne_zero, if_false]
  cases s.channel with
  | normal => exact ⟨rfl, rfl, rfl, rfl, rfl, rfl, fun c => rfl⟩
  | secure =>
    refine ⟨rfl, rfl, rfl, rfl, ?_, rfl, ?_⟩
    · simp
    · intro c
      by_cases hc : c = ctx
      · simp [hc]
      · simp [Function.update_of_ne hc]

/-- The end of a session. -/
theorem Represents.retire {s : ServerState H} {b : Book SocketHandle Addr} (hr : Represents s b)
    (hv : b.Valid) {h : SocketHandle} {ctx : Addr} (hlive : b.live h = some ctx) :
    Represents (s.disconnected ctx) (b.retire h) := by
  obtain ⟨hserver, hparser, hopen, hreg, hconn, hpool, hctx⟩ :=
    disconnected_tables s ctx
  rw [hr.handle h ctx hlive] at hopen hreg hconn
  have hheld : ctx ∈ s.connectionsMemPool.handedOut := (hr.handedOut ctx).2 (Or.inl ⟨h, hlive⟩)
  have hfail : h ≠ -1 := by
    rintro rfl
    rw [hr.notFailed] at hlive
    cases hlive
  refine ⟨?_, ?_, ?_, ?_, ?_, ?_, ?_, ?_, ?_, ?_, ?_, ?_, ?_⟩
  · intro h'
    rw [hopen, Finset.mem_erase, hr.openSockets, Book.live_retire]
    split_ifs with hh <;> simp [hh]
  · intro h'
    rw [hreg, Book.live_retire]
    split_ifs with hh
    · rw [hh, Finmap.lookup_erase, Option.map_none]
    · rw [Finmap.lookup_erase_ne hh, Finmap.lookup_erase_ne hh, hr.registrations]
  · intro h' hne
    rw [hconn, ConcurrentHashMap.find_erase, Book.live_retire, hr.connections h' hne]
    simp only [toUInt32_inj]
  · rw [hconn, ConcurrentHashMap.find_erase, if_neg, hr.failed, Book.lost_retire]
    rwa [toUInt32_inj, eq_comm]
  · intro h' c hc
    rw [Book.live_retire] at hc
    split_ifs at hc
    rw [hctx, hr.handle h' c hc]
  · intro c hc
    rw [hctx, hr.lostHandle c hc]
  · intro c
    rw [hpool, MemoryPool.mem_handedOut_release hr.accounted, Book.holds_retire hv hlive,
      hr.handedOut]
  · rw [hserver, Book.live_retire, hr.notServer, ite_self]
  · rw [Book.live_retire, hr.notFailed, ite_self]
  · rw [hpool]
    exact MemoryPool.accounted_release hr.accounted hheld
  · rw [hpool]
    exact hr.blockSize
  · rw [hpool]
    exact hr.maxAlloc
  · rw [hparser]
    exact hr.parser

/-- The message makes the server dispose of its connection, and nothing keeps it from it. -/
def MessageCloses (s : ServerState H) (a : MessageAnswer H) : Prop :=
  ∃ message request, a.read = .ok message ∧ message ≠ [] ∧
    HttpParser.parse message = .ok request ∧
    Caught a.behave (s.selected request) request ∧ Closes request ∧
    CallsReturn s.channel a request

/-- The result is that of a disposal which is cut short: one of its calls does not return. -/
def Interrupted (s : ServerState H) (ctx : Addr) (a : DisposalAnswer)
    (r : ServerState H × Except Fault Unit) : Prop :=
  ∃ s', SameTables s s' ∧ ¬ Returns s.channel a ∧ r = s'.handleDisconnectionEvent ctx a

/-- The server does not get over it, and the table of connections is as before. -/
theorem Interrupted.ends {s : ServerState H} {ctx : Addr} {a : DisposalAnswer}
    {r : ServerState H × Except Fault Unit} (h : Interrupted s ctx a r) :
    (∃ f, (∀ ex, f ≠ .thrown ex) ∧ r.2 = .error f) ∧ r.1.connections = s.connections := by
  obtain ⟨s', hs', hret, rfl⟩ := h
  rw [← hs'.channel] at hret
  refine ⟨?_, (connections_of_not_returns hret ctx).trans hs'.connections⟩
  rw [handleDisconnectionEvent_snd]
  rcases disposalOutcome_cases s'.channel a with ⟨hok, -⟩ | ⟨-, hfault⟩
  · exact absurd hok hret
  · exact hfault

theorem Interrupted.catchAll {s : ServerState H} {ctx : Addr} {a : DisposalAnswer}
    {r : ServerState H × Except Fault Unit} (h : Interrupted s ctx a r) :
    ServerState.catchAll r = r := by
  obtain ⟨f, hf, hr⟩ := h.ends.1
  obtain ⟨s', x⟩ := r
  change x = .error f at hr
  subst hr
  cases f with
  | thrown ex => exact absurd rfl (hf ex)
  | _ => rfl

/-- A disposal is carried out or cut short. -/
theorem handleDisconnectionEvent_cases {s s' : ServerState H} (hs : SameTables s s') (ctx : Addr)
    (a : DisposalAnswer) :
    (Returns s.channel a ∧ s'.handleDisconnectionEvent ctx a = (s'.disconnected ctx, .ok ())) ∨
      (¬ Returns s.channel a ∧ Interrupted s ctx a (s'.handleDisconnectionEvent ctx a)) := by
  by_cases hret : Returns s.channel a
  · exact Or.inl ⟨hret, handleDisconnectionEvent_of_returns (hs.channel ▸ hret) ctx⟩
  · exact Or.inr ⟨hret, s', hs, hret, rfl⟩

/-- What responding does to the tables. -/
theorem respond_tables (s : ServerState H) (ctx : Addr) (request : HttpRequest)
    (a : MessageAnswer H) :
    (Caught a.behave (s.selected request) request ∧ Closes request ∧
        CallsReturn s.channel a request ∧ ∃ s', SameTables s s' ∧
          s.respond ctx request a = (s'.disconnected ctx, .ok ())) ∨
      (¬ (Caught a.behave (s.selected request) request ∧ Closes request ∧
          CallsReturn s.channel a request) ∧
        (SameTables s (s.respond ctx request a).1 ∨
          Interrupted s ctx a.disposal (s.respond ctx request a))) := by
  rcases respond_cases s ctx request a with
    ⟨hn, ex, heq⟩ | ⟨hc, hsent, heq⟩ | ⟨hc, hsent, hcl, heq⟩ | ⟨hc, hsent, hcl, heq⟩
  · rw [heq]
    exact Or.inr ⟨fun h => hn h.1, Or.inl ⟨rfl, rfl, rfl, rfl, rfl, rfl, rfl, id⟩⟩
  · rw [heq]
    exact Or.inr ⟨fun h => h.2.2.1 hsent, Or.inl ⟨rfl, rfl, rfl, rfl, rfl, rfl, rfl, id⟩⟩
  · have hs : SameTables s (s.answered ctx request a.behave) :=
      ⟨rfl, rfl, rfl, rfl, rfl, rfl, rfl, id⟩
    rw [heq]
    rcases handleDisconnectionEvent_cases hs ctx a.disposal with ⟨hret, hdone⟩ | ⟨hret, hcut⟩
    · exact Or.inl ⟨hc, hcl, ⟨hsent, fun _ => hret⟩, _, hs, hdone⟩
    · exact Or.inr ⟨fun h => hret (h.2.2.2 hcl), Or.inr hcut⟩
  · rw [heq]
    exact Or.inr ⟨fun h => hcl h.2.1, Or.inl ⟨rfl, rfl, rfl, rfl, rfl, rfl, rfl, id⟩⟩

/-- **What a message does to the tables**: it disposes of its connection, or nothing, or it
begins a disposal that is cut short. -/
theorem handleMessageEvent_tables {s : ServerState H} (hp : s.parser.Reachable) (ctx : Addr)
    (a : MessageAnswer H) :
    (MessageCloses s a ∧ ∃ s', SameTables s s' ∧
        s.handleMessageEvent ctx a = (s'.disconnected ctx, .ok ())) ∨
      (¬ MessageCloses s a ∧
        (SameTables s (s.handleMessageEvent ctx a).1 ∨
          Interrupted s ctx a.disposal (s.handleMessageEvent ctx a))) := by
  cases hread : a.read with
  | error f =>
    refine Or.inr ⟨?_, Or.inl ?_⟩
    · rintro ⟨message, request, hm, -⟩
      rw [hread] at hm
      cases hm
    · rw [handleMessageEvent, hread]
      exact SameTables.refl s
  | ok message =>
    by_cases hne : message = []
    · refine Or.inr ⟨?_, Or.inl ?_⟩
      · rintro ⟨message', request, hm, hne', -⟩
        rw [hread, Except.ok.injEq] at hm
        exact hne' (hm ▸ hne)
      · rw [handleMessageEvent, hread]
        simp only [if_pos hne]
        exact SameTables.refl s
    · have hparse := hp.requestFromBuffer_snd message
      have hdigest : SameTables s (s.digested message) :=
        ⟨rfl, rfl, rfl, rfl, rfl, rfl, rfl, HttpParser.Reachable.parse message⟩
      rw [handleMessageEvent_of_read hread hne]
      cases hr : HttpParser.parse message with
      | error f =>
        refine Or.inr ⟨?_, Or.inl ?_⟩
        · rintro ⟨message', request, hm, -, hr', -⟩
          rw [hread, Except.ok.injEq] at hm
          rw [← hm, hr] at hr'
          cases hr'
        · rw [onClientMessage_of_error (hparse.trans hr)]
          exact hdigest
      | ok request =>
        have hiff : MessageCloses s a ↔ Caught a.behave (s.selected request) request ∧
            Closes request ∧ CallsReturn s.channel a request := by
          constructor
          · rintro ⟨message', request', hm, -, hr', hc⟩
            rw [hread, Except.ok.injEq] at hm
            rw [← hm, hr, Except.ok.injEq] at hr'
            rwa [hr']
          · rintro ⟨hc, hcl, hret⟩
            exact ⟨message, request, hread, hne, hr, hc, hcl, hret⟩
        rw [onClientMessage_of_ok (hparse.trans hr), hiff]
        rcases respond_tables (s.digested message) ctx request a with
          ⟨hc, hcl, hret, s', hs', heq⟩ | ⟨hn, hs' | ⟨s', hs', hcut⟩⟩
        · exact Or.inl ⟨⟨hc, hcl, hret⟩, s', hdigest.trans hs', heq⟩
        · exact Or.inr ⟨hn, Or.inl (hdigest.trans hs')⟩
        · exact Or.inr ⟨hn, Or.inr ⟨s', hdigest.trans hs', hcut⟩⟩

/-! ## The loop -/

/-- The event still describes the tables. -/
def Live (s : ServerState H) (e : FiredEvent H) : Prop :=
  e.event.ident = s.serverSocket ∨
    ∃ ctx, e.event.udata = some ctx ∧ s.registrations.lookup e.event.ident = some (some ctx)

/-- If the event is an accept on a secure channel, its handshake does not fail. -/
def HandshakeSucceeds (s : ServerState H) (e : FiredEvent H) : Prop :=
  e.event.ident = s.serverSocket → s.channel = .secure → e.accept.tlsResult = 0

/-- A batch of one event. -/
theorem deliverable_singleton {s : ServerState H} {e : FiredEvent H}
    (h : e.event.ident = s.serverSocket ∨
      s.registrations.lookup e.event.ident = some e.event.udata) : Deliverable s [e] where
  registered := by
    intro e' he'
    rwa [List.mem_singleton.1 he']
  distinct := List.pairwise_singleton ..

/-- A batch of two events, if they are of different descriptors. -/
theorem deliverable_pair {s : ServerState H} {e e' : FiredEvent H}
    (h : e.event.ident = s.serverSocket ∨
      s.registrations.lookup e.event.ident = some e.event.udata)
    (h' : e'.event.ident = s.serverSocket ∨
      s.registrations.lookup e'.event.ident = some e'.event.udata)
    (hne : e.event.ident ≠ e'.event.ident) : Deliverable s [e, e'] where
  registered := by
    rw [List.forall_mem_cons, List.forall_mem_singleton]
    exact ⟨h, h'⟩
  distinct := List.pairwise_pair.2 (Or.inr hne)

/-- Handling the event in a state that represents `b` is a step to `b'`. -/
structure Simulates (s : ServerState H) (e : FiredEvent H) (b b' : Book SocketHandle Addr) :
    Prop where
  step : Step b b'
  represents : Represents (s.handleEvent e).1 b'
  /-- The other sessions go on. -/
  others : ∀ h ctx, h ≠ e.event.ident → b.live h = some ctx → b'.live h = some ctx
  /-- Only a failed accept loses a block. -/
  lost : (e.event.ident = s.serverSocket → e.accept.descriptor ≠ -1) → b'.lost = b.lost
  serverSocket : (s.handleEvent e).1.serverSocket = s.serverSocket

theorem Represents.live_of_lookup {s : ServerState H} {b : Book SocketHandle Addr}
    (hr : Represents s b) {h : SocketHandle} {ctx : Addr} :
    s.registrations.lookup h = some (some ctx) ↔ b.live h = some ctx := by
  rw [hr.registrations]
  cases b.live h <;> simp

theorem handleEvent_server {s : ServerState H} {e : FiredEvent H}
    (h : e.event.ident = s.serverSocket) :
    s.handleEvent e = s.handleNewConnectionEvent e.accept := by
  rw [handleEvent, digestEvent_server h]

/-- An event of a client is handled with its context, by its type. -/
theorem handleEvent_client {s : ServerState H} {e : FiredEvent H} {ctx : Addr}
    (hid : e.event.ident ≠ s.serverSocket) (hctx : e.event.udata = some ctx) :
    s.handleEvent e =
      if (digestEvent s.serverSocket e.event).type = .read then
        catchAll (s.handleMessageEvent ctx e.message)
      else if (digestEvent s.serverSocket e.event).type = .disconnect then
        s.handleDisconnectionEvent ctx e.message.disposal
      else (s, .ok ()) := by
  have hcontext : (digestEvent s.serverSocket e.event).context = some ctx := by
    rw [digestEvent_context hid, hctx]
  rw [handleEvent]
  simp only [hcontext]
  cases (digestEvent s.serverSocket e.event).type with
  | read => rfl
  | write => rfl
  | disconnect => rfl
  | weird => rfl

/-- An accept opens a session, loses a block or finds none. -/
theorem simulates_accept {s : ServerState H} {b : Book SocketHandle Addr} (hr : Represents s b)
    {e : FiredEvent H} (hid : e.event.ident = s.serverSocket) (ha : Admissible s e)
    (hx : HandshakeSucceeds s e) : ∃ b', Simulates s e b b' := by
  obtain ⟨hblock, hdesc⟩ := ha hid
  rcases handleNewConnectionEvent_cases hr hblock (hx hid) with
    ⟨-, heq⟩ | ⟨-, pool, ctx, value, hvalue, hctx, hout, hacc, hbs, hmax, -, heq⟩
  · refine ⟨b, .idle b, ?_, fun h ctx _ hl => hl, fun _ => rfl, ?_⟩
    · rwa [handleEvent_server hid, heq]
    · rw [handleEvent_server hid, heq]
  · by_cases hfail : e.accept.descriptor = -1
    · refine ⟨b.lose ctx, .lose hctx, ?_, fun h c _ hl => hl, fun h => absurd hfail (h hid), ?_⟩
      · rw [handleEvent_server hid, heq]
        exact hr.lose hctx hout hacc hbs hmax (hvalue.trans hfail)
      · rw [handleEvent_server hid, heq]
        rfl
    · obtain ⟨hclosed, hserver⟩ := hdesc.resolve_left hfail
      have hnone : b.live e.accept.descriptor = none := by
        rw [hr.openSockets] at hclosed
        simpa using hclosed
      refine ⟨b.enroll e.accept.descriptor ctx, .enroll hnone hctx, ?_, ?_, fun _ => rfl, ?_⟩
      · rw [handleEvent_server hid, heq, ← hvalue]
        rw [← hvalue] at hfail hserver hnone
        exact hr.enroll hctx hout hacc hbs hmax hfail hserver hnone
      · intro h c _ hl
        rw [Book.live_enroll, if_neg, hl]
        rintro rfl
        rw [hnone] at hl
        cases hl
      · rw [handleEvent_server hid, heq]
        rfl

/-- What an event of a client does to the tables. -/
theorem handleEvent_client_tables {s : ServerState H} (hp : s.parser.Reachable)
    {e : FiredEvent H} {ctx : Addr} (hid : e.event.ident ≠ s.serverSocket)
    (hctx : e.event.udata = some ctx) :
    SameTables s (s.handleEvent e).1 ∨
      (∃ s', SameTables s s' ∧ s.handleEvent e = (s'.disconnected ctx, .ok ())) ∨
      Interrupted s ctx e.message.disposal (s.handleEvent e) := by
  rw [handleEvent_client hid hctx]
  split_ifs with hread hdisconnect
  · rcases handleMessageEvent_tables hp ctx e.message with
      ⟨-, s', hs', heq⟩ | ⟨-, hs' | hcut⟩
    · exact Or.inr (Or.inl ⟨s', hs', by rw [heq]; rfl⟩)
    · exact Or.inl (by rwa [catchAll_fst])
    · exact Or.inr (Or.inr (by rwa [hcut.catchAll]))
  · rcases handleDisconnectionEvent_cases (SameTables.refl s) ctx e.message.disposal with
      ⟨-, heq⟩ | ⟨-, hcut⟩
    · exact Or.inr (Or.inl ⟨s, SameTables.refl s, heq⟩)
    · exact Or.inr (Or.inr hcut)
  · exact Or.inl (SameTables.refl s)

/-- The event is handled to its end: it is not one of a handshake that fails, and no disposal is
cut short. -/
def Proceeds (s : ServerState H) (e : FiredEvent H) : Prop :=
  HandshakeSucceeds s e ∧ ∀ ctx, ¬ Interrupted s ctx e.message.disposal (s.handleEvent e)

theorem proceeds_of_returns {s : ServerState H} {e : FiredEvent H} (hx : HandshakeSucceeds s e)
    (hret : Returns s.channel e.message.disposal) : Proceeds s e :=
  ⟨hx, fun _ ⟨_, _, hnot, _⟩ => hnot hret⟩

/-- An event of a client ends its session, or changes nothing. -/
theorem simulates_client {s : ServerState H} {b : Book SocketHandle Addr} (hr : Represents s b)
    (hv : b.Valid) {e : FiredEvent H} {ctx : Addr} (hid : e.event.ident ≠ s.serverSocket)
    (hctx : e.event.udata = some ctx) (hlive : b.live e.event.ident = some ctx)
    (hx : Proceeds s e) : ∃ b', Simulates s e b b' := by
  rcases handleEvent_client_tables hr.parser hid hctx with hs | ⟨s', hs', heq⟩ | hcut
  · exact ⟨b, .idle b, hr.sameTables hs, fun h c _ hl => hl, fun _ => rfl, hs.serverSocket⟩
  · refine ⟨b.retire e.event.ident, .retire hlive, ?_, ?_, fun _ => rfl, ?_⟩
    · rw [heq]
      exact (hr.sameTables hs').retire hv hlive
    · intro h c hne hl
      rw [Book.live_retire, if_neg hne, hl]
    · rw [heq, (disconnected_tables s' ctx).1, hs'.serverSocket]
  · exact absurd hcut (hx.2 ctx)

/-- **Every event is a step of the book.** -/
theorem handleEvent_simulates {s : ServerState H} {b : Book SocketHandle Addr}
    (hr : Represents s b) (hv : b.Valid) {e : FiredEvent H} (hl : Live s e)
    (ha : Admissible s e) (hx : Proceeds s e) : ∃ b', Simulates s e b b' := by
  by_cases hid : e.event.ident = s.serverSocket
  · exact simulates_accept hr hid ha hx.1
  · obtain ⟨ctx, hctx, hreg⟩ := hl.resolve_left hid
    exact simulates_client hr hv hid hctx (hr.live_of_lookup.1 hreg) hx

/-- A handshake that fails ends the process. -/
theorem handshakeSucceeds_of_ok {s : ServerState H} {e : FiredEvent H}
    (h : (s.handleEvent e).2 = .ok ()) : HandshakeSucceeds s e := by
  intro hid hsecure
  by_contra htls
  rw [handleEvent_server hid, handleNewConnectionEvent] at h
  rcases halloc : s.connectionsMemPool.allocate sizeofSocketContext (some e.accept.block) with
    ⟨pool, f | _ | ctx⟩
  · rw [halloc] at h
    cases h
  · rw [halloc] at h
    cases h
  · have hexit : (acceptConnection { s with connectionsMemPool := pool } ctx e.accept).2 =
        .error (.exit 1) := by
      unfold acceptConnection
      simp only [hsecure, ne_eq, htls, not_false_eq_true, if_true]
    rw [halloc] at h
    simp only at h
    rcases hacc : acceptConnection { s with connectionsMemPool := pool } ctx e.accept with
      ⟨s', f | u⟩
    · rw [hacc] at h
      cases h
    · rw [hacc] at hexit
      cases hexit

/-- The loop goes on only after such an event. -/
theorem proceeds_of_ok {s : ServerState H} {e : FiredEvent H}
    (h : (s.handleEvent e).2 = .ok ()) : Proceeds s e := by
  refine ⟨handshakeSucceeds_of_ok h, fun ctx hcut => ?_⟩
  obtain ⟨f, -, hf⟩ := hcut.ends.1
  cases h.symm.trans hf

/-- The events of a batch are live when it is fetched. -/
theorem live_of_deliverable {s : ServerState H} {b : Book SocketHandle Addr}
    (hr : Represents s b) {batch : List (FiredEvent H)} (h : Deliverable s batch) :
    ∀ e ∈ batch, Live s e := by
  intro e he
  rcases h.registered e he with hid | hreg
  · exact Or.inl hid
  · have hmap := hreg
    rw [hr.registrations] at hmap
    obtain ⟨ctx, -, hctx⟩ := Option.map_eq_some_iff.1 hmap
    exact Or.inr ⟨ctx, hctx.symm, by rw [hreg, ← hctx]⟩

/-- An event stays live while another one of its batch is handled. -/
theorem Simulates.live {s : ServerState H} {e e' : FiredEvent H} {b b' : Book SocketHandle Addr}
    (h : Simulates s e b b') (hr : Represents s b)
    (hne : e.event.ident = s.serverSocket ∨ e.event.ident ≠ e'.event.ident) (hl : Live s e') :
    Live (s.handleEvent e).1 e' := by
  rcases hl with hid | ⟨ctx, hctx, hreg⟩
  · exact Or.inl (hid.trans h.serverSocket.symm)
  · have hlive := hr.live_of_lookup.1 hreg
    have hother : e'.event.ident ≠ e.event.ident := by
      rcases hne with hid | hne
      · rw [hid]
        intro heq
        rw [heq, hr.notServer] at hlive
        cases hlive
      · exact hne.symm
    exact Or.inr ⟨ctx, hctx, h.represents.live_of_lookup.2 (h.others _ _ hother hlive)⟩

end ServerState

open ServerState

variable {H : Type}

/-- **Every run of the loop is a run of the book**, up to a failed handshake or a disposal that
is cut short; and it loses no block if no accept fails. -/
theorem represents_of_reachable {boot : Boot H} {guard : ServerState H → FiredEvent H → Prop}
    {c : EventLoop.Config (ServerState H) (FiredEvent H) Fault}
    (h : EventLoop.Reachable (handleConnections H) guard boot.state c) :
    ((c.stopped = none ∨ ∀ s e, guard s e → Proceeds s e) →
      ∃ b, Run b ∧ Represents c.state b ∧
        ((∀ s e, guard s e → e.event.ident = s.serverSocket → e.accept.descriptor ≠ -1) →
          b.lost = [])) ∧
      (c.stopped = none → ∀ e ∈ c.pending, Live c.state e) := by
  let I : Option Fault → ServerState H → Prop := fun stopped s =>
    (stopped = none ∨ ∀ s e, guard s e → Proceeds s e) →
      s.serverSocket = boot.serverSocket ∧ ∃ b, Run b ∧ Represents s b ∧
        ((∀ s e, guard s e → e.event.ident = s.serverSocket → e.accept.descriptor ≠ -1) →
          b.lost = [])
  let indep : FiredEvent H → FiredEvent H → Prop := fun e e' =>
    e.event.ident = boot.serverSocket ∨ e.event.ident ≠ e'.event.ident
  have key := @EventLoop.Reachable.invariant _ _ _ _ guard I Live indep _ _ h ?_ ?_ ?_
  · exact ⟨fun hs => (key.1 hs).2, fun hs => (key.2 hs).1⟩
  · exact fun _ => ⟨rfl, Book.empty, Relation.ReflTransGen.refl, represents_boot boot, fun _ => rfl⟩
  · intro s batch hI hd
    obtain ⟨hserver, b, -, hr, -⟩ := hI (Or.inl rfl)
    refine ⟨live_of_deliverable hr hd, ?_⟩
    have hpair := hd.distinct
    rwa [hserver] at hpair
  · intro s e hI hl ha hg
    obtain ⟨hserver, b, hrun, hr, hlost⟩ := hI (Or.inl rfl)
    have hstep : Proceeds s e → ∃ b', Simulates s e b b' :=
      handleEvent_simulates hr hrun.valid hl ha
    constructor
    · intro hs
      have hx : Proceeds s e := by
        rcases hs with hs | hs
        · exact proceeds_of_ok (EventLoop.failure_eq_none.1 hs)
        · exact hs s e hg
      obtain ⟨b', hb'⟩ := hstep hx
      refine ⟨hb'.serverSocket.trans hserver, b', hrun.step hb'.step, hb'.represents, ?_⟩
      intro hdesc
      rw [hb'.lost (hdesc s e hg), hlost hdesc]
    · intro e' hind hl' hs
      obtain ⟨b', hb'⟩ := hstep (proceeds_of_ok (EventLoop.failure_eq_none.1 hs))
      refine hb'.live hr ?_ hl'
      rwa [hserver]

/-! ## Agreement of the tables -/

namespace ServerState

/-- If the event is an accept, it succeeds. -/
def AcceptSucceeds (s : ServerState H) (e : FiredEvent H) : Prop :=
  e.event.ident = s.serverSocket →
    e.accept.descriptor ≠ -1 ∧ (s.channel = .secure → e.accept.tlsResult = 0)

/-- The connections, the registrations and the outstanding contexts are those of the
open client sockets, and agree on the context of each. -/
structure Consistent (s : ServerState H) : Prop where
  connected : ∀ key, (s.connections.find key).isSome ↔ ∃ h ∈ s.openSockets, h.toUInt32 = key
  registered : ∀ h, h ∈ s.registrations ↔ h ∈ s.openSockets
  outstanding : ∀ h, (∃ ctx ∈ s.connectionsMemPool.handedOut,
    (s.contexts ctx).socket.handle = h) ↔ h ∈ s.openSockets
  agree : ∀ h ∈ s.openSockets, ∃ ctx ∈ s.connectionsMemPool.handedOut,
    s.connections.find h.toUInt32 = some ctx ∧ s.registrations.lookup h = some (some ctx) ∧
      (s.contexts ctx).socket.handle = h
  unique : ∀ ctx ∈ s.connectionsMemPool.handedOut, ∀ ctx' ∈ s.connectionsMemPool.handedOut,
    (s.contexts ctx).socket.handle = (s.contexts ctx').socket.handle → ctx = ctx'
  accounted : s.connectionsMemPool.Accounted

/-- The context of an outstanding block, in a book that has lost none. -/
theorem Represents.live_of_handedOut {s : ServerState H} {b : Book SocketHandle Addr}
    (hr : Represents s b) (hlost : b.lost = []) {ctx : Addr}
    (h : ctx ∈ s.connectionsMemPool.handedOut) :
    b.live (s.contexts ctx).socket.handle = some ctx := by
  rw [hr.handedOut] at h
  rcases h with ⟨k, hk⟩ | hmem
  · rwa [hr.handle k ctx hk]
  · rw [hlost] at hmem
    cases hmem

/-- Every entry of the connection table belongs to an open session. -/
theorem Represents.find_eq {s : ServerState H} {b : Book SocketHandle Addr}
    (hr : Represents s b) (hlost : b.lost = []) (h : SocketHandle) :
    s.connections.find h.toUInt32 = b.live h := by
  by_cases hne : h = -1
  · rw [hne, hr.failed, hr.notFailed, hlost]
    rfl
  · exact hr.connections h hne

/-- The tables of a book that has lost no block agree. -/
theorem Represents.consistent {s : ServerState H} {b : Book SocketHandle Addr}
    (hr : Represents s b) (hlost : b.lost = []) : Consistent s where
  connected := by
    intro key
    have hkey : (Int32.ofUInt32 key).toUInt32 = key := rfl
    rw [← hkey, hr.find_eq hlost, ← hr.openSockets]
    constructor
    · intro h
      exact ⟨_, h, rfl⟩
    · rintro ⟨h, hmem, heq⟩
      rwa [← toUInt32_inj.1 heq]
  registered := by
    intro h
    rw [← Finmap.lookup_isSome, hr.registrations, Option.isSome_map, hr.openSockets]
  outstanding := by
    intro h
    rw [hr.openSockets, Option.isSome_iff_exists]
    constructor
    · rintro ⟨ctx, hmem, rfl⟩
      exact ⟨ctx, hr.live_of_handedOut hlost hmem⟩
    · rintro ⟨ctx, hl⟩
      exact ⟨ctx, (hr.handedOut ctx).2 (Or.inl ⟨h, hl⟩), hr.handle h ctx hl⟩
  agree := by
    intro h hmem
    rw [hr.openSockets] at hmem
    obtain ⟨ctx, hl⟩ := Option.isSome_iff_exists.1 hmem
    exact ⟨ctx, (hr.handedOut ctx).2 (Or.inl ⟨h, hl⟩), by rw [hr.find_eq hlost, hl],
      hr.live_of_lookup.2 hl, hr.handle h ctx hl⟩
  unique := by
    intro ctx hctx ctx' hctx' heq
    have hl := hr.live_of_handedOut hlost hctx
    rw [heq, hr.live_of_handedOut hlost hctx'] at hl
    exact (Option.some.inj hl).symm
  accounted := hr.accounted

end ServerState

/-- **The tables agree in every reachable state**, between and inside batches, as long
as accepts succeed: whenever the loop goes on, and also when it has ended, unless in the middle
of a disposal. -/
theorem consistent_of_reachable {boot : Boot H} {guard : ServerState H → FiredEvent H → Prop}
    (hguard : ∀ s e, guard s e → AcceptSucceeds s e)
    {c : EventLoop.Config (ServerState H) (FiredEvent H) Fault}
    (h : EventLoop.Reachable (handleConnections H) guard boot.state c)
    (hend : c.stopped = none ∨ ∀ s e, guard s e → Returns s.channel e.message.disposal) :
    Consistent c.state := by
  have hproceeds : c.stopped = none ∨ ∀ s e, guard s e → Proceeds s e :=
    hend.imp_right fun hret s e hg =>
      proceeds_of_returns (fun hid => (hguard s e hg hid).2) (hret s e hg)
  obtain ⟨b, -, hr, hlost⟩ := (represents_of_reachable h).1 hproceeds
  exact hr.consistent (hlost fun s e hg hid => (hguard s e hg hid).1)

/-- The last request of the client on descriptor 4. -/
def leaving : FiredEvent Unit :=
  messageEvent 4 3 (bytes "GET / HTTP/1.1\r\nConnection: close\r\n\r\n")
    fun _ _ response => (response, .ok ())

/-- A client that gets the descriptor of the one that has left. -/
def newcomer : FiredEvent Unit := acceptEvent 3 ⟨20, 4, ⟨.inet, 80⟩, 0, none⟩

/-- The server with the clients on 5 and, accepted last, on 4 again. -/
def reused : ServerState Unit := ((twoClients.handleEvent leaving).1.handleEvent newcomer).1

/-- A client is accepted. -/
theorem trace_oneClient {guard : ServerState Unit → FiredEvent Unit → Prop}
    (hfirst : guard (Boot.plain .normal).state (client 0)) :
    EventLoop.Trace (handleConnections Unit) guard (Boot.plain .normal).state
      [client 0] ⟨oneClient, [], none⟩ := by
  refine (EventLoop.Trace.start.fetch (deliverable_singleton (Or.inl rfl))).next ?_ hfirst rfl
  exact fun _ => ⟨by unfold MemoryPool.Knows; decide, Or.inr ⟨by decide, by decide⟩⟩

/-- And then another, in a batch of its own. -/
theorem trace_twoClients {guard : ServerState Unit → FiredEvent Unit → Prop}
    (hfirst : guard (Boot.plain .normal).state (client 0))
    (hsecond : guard oneClient (client 1)) :
    EventLoop.Trace (handleConnections Unit) guard (Boot.plain .normal).state
      [client 0, client 1] ⟨twoClients, [], none⟩ := by
  refine ((trace_oneClient hfirst).fetch (deliverable_singleton (Or.inl rfl))).next ?_ hsecond rfl
  exact fun _ => ⟨by unfold MemoryPool.Knows; decide, Or.inr ⟨by decide, by decide⟩⟩

/-- One client leaves and another gets its descriptor and its block, in one batch. -/
theorem trace_reused {guard : ServerState Unit → FiredEvent Unit → Prop}
    (hfirst : guard (Boot.plain .normal).state (client 0)) (hsecond : guard oneClient (client 1))
    (hleaving : guard twoClients leaving)
    (hnewcomer : guard (twoClients.handleEvent leaving).1 newcomer) :
    EventLoop.Trace (handleConnections Unit) guard (Boot.plain .normal).state
      [client 0, client 1, leaving, newcomer] ⟨reused, [], none⟩ := by
  have hbatch : Deliverable twoClients [leaving, newcomer] :=
    deliverable_pair (Or.inr (by decide)) (Or.inl (by decide)) (by decide)
  have hleft := ((trace_twoClients hfirst hsecond).fetch hbatch).next
    (fun hid => absurd hid (by decide)) hleaving (by decide)
  refine hleft.next ?_ hnewcomer (by decide)
  exact fun _ => ⟨by unfold MemoryPool.Knows; decide, Or.inr ⟨by decide, by decide⟩⟩

theorem consistent_of_reachable_reused : Consistent reused := by
  have htrace : EventLoop.Trace (handleConnections Unit) AcceptSucceeds (Boot.plain .normal).state
      [client 0, client 1, leaving, newcomer] ⟨reused, [], none⟩ :=
    trace_reused (fun _ => ⟨by decide, by decide⟩) (fun _ => ⟨by decide, by decide⟩)
      (fun hid => absurd hid (by decide)) (fun _ => ⟨by decide, by decide⟩)
  exact consistent_of_reachable (fun _ _ h => h) htrace.reachable (Or.inl rfl)

end WebServer
