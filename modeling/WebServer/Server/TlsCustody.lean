import WebServer.Library.Ownership
import WebServer.Server.Capacity

/-!
# The TLS objects of a secure server

`AcceptConnection` of `SecureChannel` has `tls_accept_socket` put a TLS object into the context
of the client, and `DisposeConnection` frees what it finds there.

* `SocketContext.session` — the TLS object of a context, with the descriptor it belongs to.
* `openedSessions`, `closedSessions` — what an event opens and closes.
* `settled_of_trace` — the account of a run.
* `sessions_settled` — on every run that goes on, exactly the objects of the contexts that are
  handed out are open, each with its own descriptor.
-/

namespace WebServer

/-- The TLS object of a context, with the descriptor it was accepted on. -/
def SocketContext.session (x : SocketContext) : Option (SocketHandle × Addr) :=
  x.tls.map fun tls => (x.socket.handle, tls)

/-- The disposal of a context, as the log has it. -/
def Action.closes {H : Type} : Action H → Option Addr
  | .disposed ctx => some ctx
  | _ => none

namespace ServerState

variable {H : Type}

/-- What `tls_accept_socket` opens in an event, and with it the descriptor of `accept`. -/
def openedSessions (s : ServerState H) (e : FiredEvent H) : List (SocketHandle × Addr) :=
  match (digestEvent s.serverSocket e.event).context, (s.handleEvent e).2 with
  | none, .ok () => (e.accept.tls.map fun tls => (e.accept.descriptor, tls)).toList
  | _, _ => []

/-- What the disposals of an event free and close. -/
def closedSessions (s : ServerState H) (e : FiredEvent H) : List (SocketHandle × Addr) :=
  -- until its disposal a context is as it was before the event
  (((s.handleEvent e).1.log.drop s.log.length).filterMap Action.closes).filterMap fun ctx =>
    (s.contexts ctx).session

/-- The sessions of the contexts that are handed out. -/
def heldSessions (s : ServerState H) : List (SocketHandle × Addr) :=
  Ownership.holdings (fun ctx => (s.contexts ctx).session) s.connectionsMemPool.handedOut

/-- An accept gets no TLS object that is in use. -/
def NewTls (s : ServerState H) (e : FiredEvent H) : Prop :=
  e.event.ident = s.serverSocket → ∀ tls ∈ e.accept.tls, tls ∉ s.heldSessions.map Prod.snd

/-! ## What an event opens -/

/-- The accept of a secure channel, with the context that it fills in. -/
theorem acceptConnection_secure {s : ServerState H} (hsecure : s.channel = .secure) (ctx : Addr)
    {a : AcceptAnswer} (htls : a.tlsResult = 0) :
    ((s.acceptConnection ctx a).1.contexts ctx).session =
        a.tls.map (fun tls => (a.descriptor, tls)) ∧
      (s.acceptConnection ctx a).2 = .ok () := by
  unfold acceptConnection
  simp only [acceptSocket_eq, setContext, hsecure, htls]
  refine ⟨?_, rfl⟩
  simp [SocketContext.session, contextFromSocketHandle]

/-- A registration is a matter of the kernel. -/
theorem registerContext_contexts (s : ServerState H) (ctx : Addr) (action : EventAction)
    (saveContext : Bool) :
    (s.registerContext ctx action saveContext).1.contexts = s.contexts ∧
      (s.registerContext ctx action saveContext).1.lastConnection = s.lastConnection := by
  unfold registerContext kevent applyChange
  cases action with
  | add =>
    simp only
    split_ifs <;> exact ⟨rfl, rfl⟩
  | delete => exact ⟨rfl, rfl⟩
  | enable => exact ⟨rfl, rfl⟩
  | disable => exact ⟨rfl, rfl⟩

/-- An accept that succeeds leaves what `tls_accept_socket` has opened in the new context. -/
theorem session_accepted {s : ServerState H} (hsecure : s.channel = .secure) {a : AcceptAnswer}
    (htls : a.tlsResult = 0) {pool : MemoryPool} {ctx : Addr} {value : SocketContext}
    (h : s.handleNewConnectionEvent a = (s.accepted pool ctx value, .ok ())) :
    value.session = a.tls.map fun tls => (a.descriptor, tls) := by
  unfold handleNewConnectionEvent at h
  rcases halloc : s.connectionsMemPool.allocate sizeofSocketContext (some a.block) with
    ⟨pool', f | _ | ctx'⟩
  · rw [halloc] at h
    cases congrArg Prod.snd h
  · rw [halloc] at h
    cases congrArg Prod.snd h
  · obtain ⟨hsession, hok⟩ := acceptConnection_secure (s := { s with connectionsMemPool := pool' })
      hsecure ctx' htls
    rcases hacc : acceptConnection { s with connectionsMemPool := pool' } ctx' a with ⟨s', r⟩
    rw [hacc] at hsession hok
    simp only at hsession hok
    subst hok
    simp only [halloc, hacc] at h
    obtain ⟨hcontexts, hlast⟩ := registerContext_contexts (s'.onClientConnected ctx') ctx' .add true
    rw [h] at hcontexts hlast
    -- the last connection is the block that the pool has given
    obtain rfl : ctx = ctx' := Option.some.inj hlast
    have hvalue : value = s'.contexts ctx :=
      (Function.update_self ..).symm.trans (congrFun hcontexts ctx)
    rw [hvalue, hsession]

theorem openedSessions_server {s : ServerState H} {e : FiredEvent H}
    (hid : e.event.ident = s.serverSocket) (hok : (s.handleEvent e).2 = .ok ()) :
    s.openedSessions e = (e.accept.tls.map fun tls => (e.accept.descriptor, tls)).toList := by
  rw [openedSessions, digestEvent_server hid, hok]

theorem openedSessions_client {s : ServerState H} {e : FiredEvent H} {ctx : Addr}
    (hid : e.event.ident ≠ s.serverSocket) (hctx : e.event.udata = some ctx) :
    s.openedSessions e = [] := by
  have hcontext : (digestEvent s.serverSocket e.event).context = some ctx := by
    rw [digestEvent_context hid, hctx]
  rw [openedSessions, hcontext]

/-! ## What an event closes -/

theorem closedSessions_eq {s : ServerState H} {e : FiredEvent H} {l : List (Action H)}
    (h : (s.handleEvent e).1.log = s.log ++ l) :
    s.closedSessions e = (l.filterMap Action.closes).filterMap fun ctx =>
      (s.contexts ctx).session := by
  rw [closedSessions, h, List.drop_left]

theorem closedSessions_server {s : ServerState H} {e : FiredEvent H}
    (hid : e.event.ident = s.serverSocket) : s.closedSessions e = [] := by
  refine closedSessions_eq (l := []) ?_
  rw [handleEvent_server hid]
  exact (shows_handleNewConnectionEvent s e.accept).log

/-- Where no disposal is counted none is found. -/
theorem closes_eq_nil {l : List (Action H)} (h : l.countP isDisposal = 0) :
    l.filterMap Action.closes = [] := by
  refine List.filterMap_eq_nil_iff.2 fun a ha => ?_
  have hnot := List.countP_eq_zero.1 h a ha
  cases a with
  | disposed ctx => exact absurd rfl hnot
  | parsed ctx request => rfl
  | handled handler request => rfl
  | wrote ctx response buffer => rfl

/-- A log that ends with the only disposal there is. -/
theorem closes_of_concat {l l' : List (Action H)} {ctx : Addr} {shown : List (Action H)}
    (hlog : l ++ shown = l' ++ [.disposed ctx]) (hcount : shown.countP isDisposal = 1) :
    shown.filterMap Action.closes = [ctx] := by
  rcases List.eq_nil_or_concat shown with rfl | ⟨front, a, rfl⟩
  · cases hcount
  · rw [List.concat_eq_append] at hlog hcount ⊢
    rw [← List.append_assoc] at hlog
    obtain ⟨-, hlast⟩ := List.append_inj' hlog rfl
    obtain rfl : a = .disposed ctx := List.singleton_inj.1 hlast
    rw [List.countP_append, List.countP_singleton] at hcount
    have hfront : front.countP isDisposal = 0 := Nat.add_right_cancel (m := 1) hcount
    rw [List.filterMap_append, closes_eq_nil hfront]
    rfl

/-- An event over which the loop goes on closes nothing and leaves the tables alone, or it closes
what the context of its client holds. -/
theorem handleEvent_client_sessions {s : ServerState H} (hp : s.parser.Reachable)
    {e : FiredEvent H} {ctx : Addr} (hid : e.event.ident ≠ s.serverSocket)
    (hctx : e.event.udata = some ctx) (hok : (s.handleEvent e).2 = .ok ()) :
    (s.closedSessions e = [] ∧ SameTables s (s.handleEvent e).1) ∨
      (s.closedSessions e = (s.contexts ctx).session.toList ∧
        ∃ s', SameTables s s' ∧ s.handleEvent e = (s'.disconnected ctx, .ok ())) := by
  have hlog := (shows_handleEvent hp e).log
  rcases handleEvent_client_disposal hp hid hctx hok with ⟨hnone, hs⟩ | ⟨hone, s', hs', heq⟩
  · refine Or.inl ⟨?_, hs⟩
    rw [closedSessions_eq hlog, closes_eq_nil hnone]
    rfl
  · refine Or.inr ⟨?_, s', hs', heq⟩
    have hshown := hlog
    rw [heq, log_disconnected] at hshown
    rw [closedSessions_eq hlog, closes_of_concat hshown.symm hone]
    cases h : (s.contexts ctx).session <;> simp [h]

/-- Nobody is disposed of by the event of another. -/
theorem eq_of_disposed_mem_shownTo {r : HttpRouter H} {ctx c : Addr}
    {x : EventType × MessageAnswer H} (h : Action.disposed c ∈ shownTo r ctx x) : ctx = c := by
  have htold : Outcome.disposed ∈ told c (shownTo r ctx x) :=
    List.mem_filterMap.2 ⟨_, h, if_pos rfl⟩
  rw [told_shownTo] at htold
  by_contra hne
  rw [if_neg hne] at htold
  exact absurd htold List.not_mem_nil

/-- However it ends, an event closes at most what the context of its client holds. -/
theorem closedSessions_subset {s : ServerState H} (hp : s.parser.Reachable) {e : FiredEvent H}
    {ctx : Addr} (hid : e.event.ident ≠ s.serverSocket) (hctx : e.event.udata = some ctx) :
    s.closedSessions e ⊆ (s.contexts ctx).session.toList := by
  intro r hmem
  have hcontext : (digestEvent s.serverSocket e.event).context = some ctx := by
    rw [digestEvent_context hid, hctx]
  rw [closedSessions_eq (shows_handleEvent hp e).log, shown] at hmem
  simp only [hcontext] at hmem
  obtain ⟨c, hc, hsession⟩ := List.mem_filterMap.1 hmem
  obtain ⟨action, haction, hcloses⟩ := List.mem_filterMap.1 hc
  cases action with
  | disposed c' =>
    obtain rfl : c' = c := Option.some.inj hcloses
    rw [eq_of_disposed_mem_shownTo haction]
    exact Option.mem_toList.2 hsession
  | parsed => cases hcloses
  | handled => cases hcloses
  | wrote => cases hcloses

/-- A disposal leaves the other contexts as they are. -/
theorem contexts_disconnected (s : ServerState H) {ctx c : Addr} (hne : c ≠ ctx) :
    (s.disconnected ctx).contexts c = s.contexts c := by
  unfold disconnected handleDisconnectionEvent disposeConnection onClientDisconnected
    registerSocket kevent applyChange
  simp only [Waited.outcome, Written.outcome, one_ne_zero, if_false]
  cases s.channel with
  | normal => rfl
  | secure => exact Function.update_of_ne hne ..

end ServerState

open ServerState Ownership

variable {H : Type}

/-! ## Runs -/

/-- The account of the sessions, in a state with these openings and closings before it. -/
def SessionsSettled (s : ServerState H) (opened closed : List (SocketHandle × Addr)) : Prop :=
  Settled Prod.snd (fun ctx => (s.contexts ctx).session) s.connectionsMemPool.handedOut opened
    closed

theorem SessionsSettled.sameTables {s s' : ServerState H}
    {opened closed : List (SocketHandle × Addr)} (h : SessionsSettled s opened closed)
    (hs : SameTables s s') : SessionsSettled s' opened closed := by
  rw [SessionsSettled, hs.connectionsMemPool, hs.contexts]
  exact h

/-- A disposal closes what its context holds. -/
theorem SessionsSettled.dispose {s : ServerState H} {opened closed : List (SocketHandle × Addr)}
    (h : SessionsSettled s opened closed) {ctx : Addr}
    (hctx : ctx ∈ s.connectionsMemPool.handedOut) :
    SessionsSettled (s.disconnected ctx) opened
      (closed ++ (s.contexts ctx).session.toList) := by
  obtain ⟨-, -, -, -, -, hpool, -⟩ := disconnected_tables s ctx
  rw [SessionsSettled, hpool]
  refine h.leave hctx fun c _ hne => ?_
  rw [contexts_disconnected s hne]

/-- An accept takes a block for what it has opened. -/
theorem SessionsSettled.accept {s : ServerState H} {opened closed : List (SocketHandle × Addr)}
    (h : SessionsSettled s opened closed) {pool : MemoryPool} {ctx : Addr} {value : SocketContext}
    (hctx : ctx ∉ s.connectionsMemPool.handedOut)
    (hout : pool.handedOut = ctx :: s.connectionsMemPool.handedOut)
    (hnew : ∀ r ∈ value.session, r.2 ∉ s.heldSessions.map Prod.snd) :
    SessionsSettled (s.accepted pool ctx value) (opened ++ value.session.toList) closed := by
  have hself : Function.update s.contexts ctx value ctx = value := Function.update_self ..
  have htaken : Settled Prod.snd (fun c => (Function.update s.contexts ctx value c).session)
      (ctx :: s.connectionsMemPool.handedOut)
      (opened ++ (Function.update s.contexts ctx value ctx).session.toList) closed := by
    refine h.take hctx (fun c hc => ?_) ?_
    · rw [Function.update_of_ne (ne_of_mem_of_not_mem hc hctx)]
    · rw [hself]
      exact hnew
  rw [hself, ← hout] at htaken
  exact htaken

/-- **The account is settled after every run that goes on.** -/
theorem settled_of_trace {boot : Boot H} (hsecure : boot.channel = .secure)
    {guard : ServerState H → FiredEvent H → Prop} (hnew : ∀ s e, guard s e → NewTls s e)
    {es : List (FiredEvent H)} {c : EventLoop.Config (ServerState H) (FiredEvent H) Fault}
    (h : EventLoop.Trace (handleConnections H) guard boot.state es c) (hgo : c.stopped = none) :
    SessionsSettled c.state (EventLoop.observed (handleConnections H) openedSessions boot.state es)
      (EventLoop.observed (handleConnections H) closedSessions boot.state es) := by
  let I : List (FiredEvent H) → Option Fault → ServerState H → Prop := fun es stopped s =>
    stopped = none → s.channel = .secure ∧
      SessionsSettled s (EventLoop.observed (handleConnections H) openedSessions boot.state es)
        (EventLoop.observed (handleConnections H) closedSessions boot.state es)
  refine (EventLoop.Trace.invariant (I := I) h (fun _ => ⟨hsecure, settled_nil _⟩) ?_ hgo).2
  intro es s e rest htrace hI ha hg hfail
  obtain ⟨hch, hset⟩ := hI rfl
  obtain ⟨b, hrun, hr, hl⟩ := ready htrace.reachable rfl rfl
  have hok : (s.handleEvent e).2 = .ok () := EventLoop.failure_eq_none.1 hfail
  rw [htrace.observed_concat, htrace.observed_concat]
  show (s.handleEvent e).1.channel = .secure ∧ SessionsSettled (s.handleEvent e).1 _ _
  by_cases hid : e.event.ident = s.serverSocket
  · have htls := handshakeSucceeds_of_ok hok hid hch
    rw [openedSessions_server hid hok, closedSessions_server hid, List.append_nil]
    rw [handleEvent_server hid] at hok ⊢
    rcases handleNewConnectionEvent_cases hr (ha hid).1 (fun _ => htls) with
      ⟨-, heq⟩ | ⟨-, pool, ctx, value, -, hctx, hout, -, -, -, -, heq⟩
    · -- an exhausted pool ends the loop
      rw [heq] at hok
      cases hok
    · have hvalue := session_accepted hch htls heq
      rw [heq, ← hvalue]
      refine ⟨hch, hset.accept (fun hmem => hctx ((hr.handedOut ctx).1 hmem)) hout fun r hr' => ?_⟩
      rw [hvalue, Option.mem_map] at hr'
      obtain ⟨tls, htls', rfl⟩ := hr'
      exact hnew s e hg hid tls htls'
  · obtain ⟨ctx, hudata, hreg⟩ := hl.resolve_left hid
    have hheld : ctx ∈ s.connectionsMemPool.handedOut :=
      (hr.handedOut ctx).2 (Or.inl ⟨_, hr.live_of_lookup.1 hreg⟩)
    rw [openedSessions_client hid hudata, List.append_nil]
    rcases handleEvent_client_sessions hr.parser hid hudata hok with
      ⟨hnone, hs⟩ | ⟨hone, s', hs', heq⟩
    · rw [hnone, List.append_nil]
      exact ⟨hs.channel.trans hch, hset.sameTables hs⟩
    · rw [hone, heq, ← hs'.contexts, channel_disconnected, hs'.channel]
      exact ⟨hch, (hset.sameTables hs').dispose (hs'.connectionsMemPool ▸ hheld)⟩

/-- **No TLS object of a secure server is lost, freed twice or mixed up**, as long as
`tls_accept_socket` gives out no object that is in use.  On every run that goes on, the
objects opened so far, each with the descriptor it was opened for, are those closed, with that
descriptor, and those of the contexts that are handed out, one for one; no object is in two
contexts; the object of a connected client is open and was opened for its descriptor; and what
the next event of a client closes is open. -/
theorem sessions_settled {boot : Boot H} (hsecure : boot.channel = .secure)
    {guard : ServerState H → FiredEvent H → Prop} (hnew : ∀ s e, guard s e → NewTls s e)
    {es : List (FiredEvent H)} {c : EventLoop.Config (ServerState H) (FiredEvent H) Fault}
    (h : EventLoop.Trace (handleConnections H) guard boot.state es c) (hgo : c.stopped = none) :
    (EventLoop.observed (handleConnections H) openedSessions boot.state es).Perm
        (EventLoop.observed (handleConnections H) closedSessions boot.state es ++
          c.state.heldSessions) ∧
      (c.state.heldSessions.map Prod.snd).Nodup ∧
      (∀ handle ctx tls, c.state.registrations.lookup handle = some (some ctx) →
        (c.state.contexts ctx).tls = some tls → (handle, tls) ∈ c.state.heldSessions) ∧
      ∀ e rest, c.pending = e :: rest → c.state.closedSessions e ⊆ c.state.heldSessions := by
  have hset := settled_of_trace hsecure hnew h hgo
  obtain ⟨b, -, hr, -⟩ := (represents_of_reachable h.reachable).1 (Or.inl hgo)
  have hheld : ∀ handle ctx, c.state.registrations.lookup handle = some (some ctx) →
      ctx ∈ c.state.connectionsMemPool.handedOut ∧
        (c.state.contexts ctx).socket.handle = handle := by
    intro handle ctx hreg
    have hlive := hr.live_of_lookup.1 hreg
    exact ⟨(hr.handedOut ctx).2 (Or.inl ⟨handle, hlive⟩), hr.handle handle ctx hlive⟩
  refine ⟨hset.account, hset.single, ?_, ?_⟩
  · intro handle ctx tls hreg htls
    obtain ⟨hmem, hhandle⟩ := hheld handle ctx hreg
    refine mem_holdings hmem ?_
    rw [SocketContext.session, htls, Option.map_some, hhandle]
  · intro e rest hpending
    obtain ⟨-, -, -, hl⟩ := ready h.reachable hgo hpending
    by_cases hid : e.event.ident = c.state.serverSocket
    · rw [closedSessions_server hid]
      exact List.nil_subset _
    · obtain ⟨ctx, hudata, hreg⟩ := hl.resolve_left hid
      intro r hmem
      have hown := closedSessions_subset hr.parser hid hudata hmem
      exact mem_holdings (hheld _ ctx hreg).1 (Option.mem_toList.1 hown)

/-- A client whose TLS object is at 9. -/
def secureClient : FiredEvent Unit := acceptEvent 3 ⟨10, 4, ⟨.inet, 80⟩, 0, some 9⟩

/-- A secure server that has this client. -/
def secureServer : ServerState Unit := ((Boot.plain .secure).state.handleEvent secureClient).1

theorem trace_secureVisit :
    EventLoop.Trace (handleConnections Unit) NewTls (Boot.plain .secure).state
      [secureClient, lastRequest] ⟨(secureServer.handleEvent lastRequest).1, [], none⟩ := by
  have haccepted : EventLoop.Trace (handleConnections Unit) NewTls (Boot.plain .secure).state
      [secureClient] ⟨secureServer, [], none⟩ := by
    refine (EventLoop.Trace.start.fetch (deliverable_singleton (Or.inl rfl))).next ?_ ?_ rfl
    · exact fun _ => ⟨by unfold MemoryPool.Knows; decide, Or.inr ⟨by decide, by decide⟩⟩
    · exact fun _ _ _ => List.not_mem_nil
  have hserver : (4 : SocketHandle) ≠ secureServer.serverSocket := by decide
  refine (haccepted.fetch (deliverable_singleton (Or.inr ?_))).next ?_ ?_ (by decide)
  · show Finmap.lookup 4 secureServer.registrations = some (some 3)
    decide
  · exact fun hid => absurd hid hserver
  · exact fun hid => absurd hid hserver

/-- The client has been served, and what was opened for it is closed. -/
theorem sessions_settled_visit :
    (EventLoop.observed (handleConnections Unit) openedSessions (Boot.plain .secure).state
        [secureClient, lastRequest]).Perm
      (EventLoop.observed (handleConnections Unit) closedSessions (Boot.plain .secure).state
          [secureClient, lastRequest] ++ (secureServer.handleEvent lastRequest).1.heldSessions) :=
  (sessions_settled rfl (fun _ _ => id) trace_secureVisit rfl).1

example : secureServer.heldSessions = [(4, 9)] := by decide

example : secureServer.closedSessions lastRequest = [(4, 9)] := by decide

end WebServer
