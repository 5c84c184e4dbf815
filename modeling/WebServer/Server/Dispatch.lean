import WebServer.Library.EventLoop
import WebServer.Http.ParserSpec
import WebServer.Server.Basic

/-!
# From a message to its response

What `OnClientMessage` does with a message, as far as a client can see it.

* `disposalOutcome`, `disconnected` — how a disposal ends, and what it leaves if its calls
  return.
* `respond_cases` — the ways it goes on with a request, by the exception the handler ends with,
  the outcome of `send` and the `Connection` header.
* `onClientMessage_dispatch` — routing, the response and the disposal, for every
  request that parses.
* `respondsOnce_iff` — the messages that are answered.
-/

namespace WebServer

namespace ServerState

variable {H : Type}

/-! ## The handler call and its `catch` clauses -/

/-- The handler that is selected for a request. -/
def selected (s : ServerState H) (request : HttpRequest) : HttpHandler H :=
  (s.router.getHandler request.path request.method).2

/-- The `try` block does not end with an exception that both `catch` clauses miss. -/
def Caught (behave : Behaviour H) (handler : HttpHandler H) (request : HttpRequest) : Prop :=
  ∀ ex, (callHandler behave handler request (freshResponse request)).2 = .error ex →
    ex.asRuntimeError.isSome

/-- The response that is left after the `catch` clauses. -/
def answer (behave : Behaviour H) (handler : HttpHandler H) (request : HttpRequest) :
    HttpResponse :=
  (serve behave handler request (freshResponse request)).1

theorem serve_of_caught {behave : Behaviour H} {handler : HttpHandler H} {request : HttpRequest}
    (h : Caught behave handler request) :
    serve behave handler request (freshResponse request) =
      (answer behave handler request, .ok ()) := by
  unfold answer serve
  rcases hc : callHandler behave handler request (freshResponse request) with ⟨response, ex | u⟩
  · have hsome := h ex (by rw [hc])
    simp only
    cases hh : ex.asHttpException with
    | some p => rfl
    | none =>
      obtain ⟨what, hw⟩ := Option.isSome_iff_exists.1 hsome
      simp [hw]
  · rfl

theorem serve_of_not_caught {behave : Behaviour H} {handler : HttpHandler H}
    {request : HttpRequest} (h : ¬ Caught behave handler request) :
    ∃ response ex, serve behave handler request (freshResponse request) =
      (response, .error ex) := by
  unfold Caught at h
  simp only [not_forall] at h
  obtain ⟨ex, hex, hnone⟩ := h
  rw [Option.not_isSome_iff_eq_none] at hnone
  have hhttp : ex.asHttpException = none := by
    cases hh : ex.asHttpException with
    | none => rfl
    | some p =>
      rw [CppException.asRuntimeError_of_asHttpException hh] at hnone
      cases hnone
  rcases hc : callHandler behave handler request (freshResponse request) with ⟨response, r⟩
  rw [hc] at hex
  refine ⟨response, ex, ?_⟩
  rw [serve, hc]
  simp only at hex
  subst hex
  simp [hhttp, hnone]

/-- Without a handler the answer is the 404 of the `NotFoundException`. -/
theorem answer_none (behave : Behaviour H) (request : HttpRequest) :
    (answer behave none request).code = .notFound ∧
      (answer behave none request).body =
        cString (formatThis "Resource " request.path " not found") :=
  ⟨rfl, rfl⟩

theorem answer_of_ok {behave : Behaviour H} {handler : H} {request : HttpRequest}
    {left : HttpResponse} (h : behave handler request (freshResponse request) = (left, .ok ())) :
    answer behave (some handler) request = left := by
  rw [answer, serve, callHandler, h]

/-- After an `HttpException` the answer has its status and its text. -/
theorem answer_of_httpException {behave : Behaviour H} {handler : H} {request : HttpRequest}
    {left : HttpResponse} {ex : CppException} {status : HttpStatusCode} {what : ByteString}
    (h : behave handler request (freshResponse request) = (left, .error ex))
    (hex : ex.asHttpException = some (status, what)) :
    (answer behave (some handler) request).code = status ∧
      (answer behave (some handler) request).body = what := by
  rw [answer, serve, callHandler, h]
  simp only [hex]
  exact ⟨rfl, rfl⟩

/-- After another `std::runtime_error` it has 500 and the text of the error. -/
theorem answer_of_runtimeError {behave : Behaviour H} {handler : H} {request : HttpRequest}
    {left : HttpResponse} {ex : CppException} {what : ByteString}
    (h : behave handler request (freshResponse request) = (left, .error ex))
    (hhttp : ex.asHttpException = none) (hex : ex.asRuntimeError = some what) :
    (answer behave (some handler) request).code = .internalServerError ∧
      (answer behave (some handler) request).body = what := by
  rw [answer, serve, callHandler, h]
  simp only [hhttp, hex]
  exact ⟨rfl, rfl⟩

/-! ## Disposals -/

/-- The calls of a disposal return. -/
def Returns (channel : Channel) (a : DisposalAnswer) : Prop :=
  a.waited = .returned ∧ (channel = .secure → a.tlsClosed ≠ .sigpipe)

instance (channel : Channel) (a : DisposalAnswer) : Decidable (Returns channel a) :=
  inferInstanceAs (Decidable (_ ∧ _))

/-- How a disposal ends. -/
def disposalOutcome (channel : Channel) (a : DisposalAnswer) : Except Fault Unit :=
  match a.waited.outcome, channel with
  | .error f, _ => .error f
  | .ok (), .normal => .ok ()
  | .ok (), .secure => a.tlsClosed.outcome.map fun _ => ()

/-- It ends well when its calls return, and never with an exception. -/
theorem disposalOutcome_cases (channel : Channel) (a : DisposalAnswer) :
    (Returns channel a ∧ disposalOutcome channel a = .ok ()) ∨
      (¬ Returns channel a ∧ ∃ f, (∀ ex, f ≠ .thrown ex) ∧
        disposalOutcome channel a = .error f) := by
  obtain ⟨waited, tlsClosed⟩ := a
  cases waited with
  | returned =>
    cases channel with
    | normal => exact Or.inl ⟨⟨rfl, nofun⟩, rfl⟩
    | secure =>
      cases tlsClosed with
      | returned result => exact Or.inl ⟨⟨rfl, fun _ => nofun⟩, rfl⟩
      | sigpipe => exact Or.inr ⟨fun h => h.2 rfl rfl, .signal 13, nofun, rfl⟩
  | forever => exact Or.inr ⟨fun h => (nomatch h.1), .diverges, nofun, rfl⟩
  | stored => exact Or.inr ⟨fun h => (nomatch h.1), .nullPointer, nofun, rfl⟩

/-- Nothing in it is read outside of a container. -/
theorem disposalOutcome_ne_outOfBounds (channel : Channel) (a : DisposalAnswer) :
    disposalOutcome channel a ≠ .error .outOfBounds := by
  obtain ⟨waited, tlsClosed⟩ := a
  cases waited with
  | returned => cases channel <;> cases tlsClosed <;> nofun
  | forever => nofun
  | stored => nofun

theorem handleDisconnectionEvent_snd (s : ServerState H) (ctx : Addr) (a : DisposalAnswer) :
    (s.handleDisconnectionEvent ctx a).2 = disposalOutcome s.channel a := by
  obtain ⟨waited, tlsClosed⟩ := a
  unfold handleDisconnectionEvent disposeConnection registerSocket kevent applyChange
  cases waited with
  | returned =>
    simp only [disposalOutcome, Waited.outcome, one_ne_zero, if_false]
    cases hch : s.channel with
    | normal => rfl
    | secure => cases tlsClosed <;> rfl
  | forever => rfl
  | stored => rfl

/-- The state after a disposal whose calls return. -/
def disconnected (s : ServerState H) (ctx : Addr) : ServerState H :=
  (s.handleDisconnectionEvent ctx ⟨.returned, .returned 0⟩).1

theorem handleDisconnectionEvent_of_returns {s : ServerState H} {a : DisposalAnswer}
    (h : Returns s.channel a) (ctx : Addr) :
    s.handleDisconnectionEvent ctx a = (s.disconnected ctx, .ok ()) := by
  obtain ⟨waited, tlsClosed⟩ := a
  obtain ⟨hwaited, htls⟩ := h
  change waited = .returned at hwaited
  subst hwaited
  unfold disconnected handleDisconnectionEvent disposeConnection registerSocket kevent applyChange
  simp only [Waited.outcome, one_ne_zero, if_false]
  cases hch : s.channel with
  | normal => rfl
  | secure =>
    cases tlsClosed with
    | returned result => rfl
    | sigpipe => exact absurd rfl (htls hch)

/-- What a disposal adds to the log. -/
def shownDisposal (ctx : Addr) (a : DisposalAnswer) : List (Action H) :=
  if a.waited = .returned then [.disposed ctx] else []

/-- However it ends, a disposal shows itself and nothing else, and leaves the routes, the parser,
the server's socket and its channel alone. -/
theorem handleDisconnectionEvent_frame (s : ServerState H) (ctx : Addr) (a : DisposalAnswer) :
    (s.handleDisconnectionEvent ctx a).1.log = s.log ++ shownDisposal ctx a ∧
      (s.handleDisconnectionEvent ctx a).1.router = s.router ∧
      (s.handleDisconnectionEvent ctx a).1.parser = s.parser ∧
      (s.handleDisconnectionEvent ctx a).1.serverSocket = s.serverSocket ∧
      (s.handleDisconnectionEvent ctx a).1.channel = s.channel := by
  obtain ⟨waited, tlsClosed⟩ := a
  unfold handleDisconnectionEvent disposeConnection registerSocket kevent applyChange shownDisposal
  cases waited with
  | returned =>
    simp only [Waited.outcome, one_ne_zero, if_false, if_true]
    cases s.channel with
    | normal => exact ⟨rfl, rfl, rfl, rfl, rfl⟩
    | secure => cases tlsClosed <;> exact ⟨rfl, rfl, rfl, rfl, rfl⟩
  | forever => exact ⟨(List.append_nil _).symm, rfl, rfl, rfl, rfl⟩
  | stored => exact ⟨(List.append_nil _).symm, rfl, rfl, rfl, rfl⟩

theorem log_disconnected (s : ServerState H) (ctx : Addr) :
    (s.disconnected ctx).log = s.log ++ [.disposed ctx] :=
  (s.handleDisconnectionEvent_frame ctx _).1

theorem channel_disconnected (s : ServerState H) (ctx : Addr) :
    (s.disconnected ctx).channel = s.channel :=
  (s.handleDisconnectionEvent_frame ctx _).2.2.2.2

/-- A disposal that is cut short has not come to the table of connections. -/
theorem connections_of_not_returns {s : ServerState H} {a : DisposalAnswer}
    (h : ¬ Returns s.channel a) (ctx : Addr) :
    (s.handleDisconnectionEvent ctx a).1.connections = s.connections := by
  obtain ⟨waited, tlsClosed⟩ := a
  unfold handleDisconnectionEvent disposeConnection registerSocket kevent applyChange
  cases waited with
  | returned =>
    simp only [Waited.outcome, one_ne_zero, if_false]
    cases hch : s.channel with
    | normal => exact absurd ⟨rfl, fun hs => nomatch hch.symm.trans hs⟩ h
    | secure =>
      cases tlsClosed with
      | returned result => exact absurd ⟨rfl, fun _ => nofun⟩ h
      | sigpipe => rfl
  | forever => rfl
  | stored => rfl

/-! ## Responding to a request -/

/-- The state when the request is routed and its handler has been called. -/
def routed (s : ServerState H) (ctx : Addr) (request : HttpRequest) : ServerState H :=
  { s with
    router := (s.router.getHandler request.path request.method).1
    log := s.log ++ (Action.parsed ctx request :: handlerCall (s.selected request) request) }

/-- The state when its response is written. -/
def answered (s : ServerState H) (ctx : Addr) (request : HttpRequest) (behave : Behaviour H) :
    ServerState H :=
  ((s.routed ctx request).writeResponse ctx (answer behave (s.selected request) request)
    (.returned 0)).1

@[simp] theorem log_answered (s : ServerState H) (ctx : Addr) (request : HttpRequest)
    (behave : Behaviour H) :
    (s.answered ctx request behave).log = s.log ++
      (Action.parsed ctx request :: handlerCall (s.selected request) request ++
        [Action.wrote ctx (answer behave (s.selected request) request)
          (bufferFromResponse (answer behave (s.selected request) request))]) :=
  List.append_assoc ..

/-- The first `Connection` header is exactly `close`. -/
def Closes (request : HttpRequest) : Prop :=
  request.getHeader (bytes "Connection") = .ok (bytes "close")

instance (request : HttpRequest) : Decidable (Closes request) :=
  inferInstanceAs (Decidable (_ = _))

/-- An exception that gets past the `catch` clauses leaves nothing written. -/
theorem respond_of_not_caught {s : ServerState H} (ctx : Addr) {request : HttpRequest}
    {a : MessageAnswer H} (h : ¬ Caught a.behave (s.selected request) request) :
    ∃ ex, s.respond ctx request a = (s.routed ctx request, .error (.thrown ex)) := by
  obtain ⟨response, ex, hs⟩ := serve_of_not_caught h
  refine ⟨ex, ?_⟩
  unfold selected at hs
  unfold respond
  simp only [hs]
  rfl

/-- Otherwise the response is written.  It ends there if that kills the process. -/
theorem respond_of_sigpipe {s : ServerState H} {ctx : Addr} {request : HttpRequest}
    {a : MessageAnswer H} (h : Caught a.behave (s.selected request) request)
    (hsent : a.sent = .sigpipe) :
    s.respond ctx request a = (s.answered ctx request a.behave, .error (.signal 13)) := by
  have hs := serve_of_caught h
  unfold selected at hs
  unfold respond writeResponse
  simp only [hs, hsent]
  rfl

/-- And if not, the `Connection` header decides the rest. -/
theorem respond_of_caught {s : ServerState H} {ctx : Addr} {request : HttpRequest}
    {a : MessageAnswer H} (h : Caught a.behave (s.selected request) request)
    (hsent : a.sent ≠ .sigpipe) :
    s.respond ctx request a =
      if Closes request then
        (s.answered ctx request a.behave).handleDisconnectionEvent ctx a.disposal
      else (s.answered ctx request a.behave,
        (request.getHeader (bytes "Connection")).map fun _ => ()) := by
  have hs := serve_of_caught h
  unfold selected at hs
  obtain ⟨n, hn⟩ := Written.exists_returned hsent
  unfold respond writeResponse
  simp only [hs, hn]
  cases hv : request.getHeader (bytes "Connection") with
  | error f =>
    have hc : ¬ Closes request := by
      rw [Closes, hv]
      exact nofun
    rw [if_neg hc]
    rfl
  | ok value =>
    have hc : Closes request ↔ value = bytes "close" := by
      rw [Closes, hv, Except.ok.injEq]
    simp only [hc]
    split_ifs <;> rfl

/-- The ways in which `OnClientMessage` goes on with a request. -/
theorem respond_cases (s : ServerState H) (ctx : Addr) (request : HttpRequest)
    (a : MessageAnswer H) :
    (¬ Caught a.behave (s.selected request) request ∧
        ∃ ex, s.respond ctx request a = (s.routed ctx request, .error (.thrown ex))) ∨
      (Caught a.behave (s.selected request) request ∧ a.sent = .sigpipe ∧
        s.respond ctx request a = (s.answered ctx request a.behave, .error (.signal 13))) ∨
      (Caught a.behave (s.selected request) request ∧ a.sent ≠ .sigpipe ∧ Closes request ∧
        s.respond ctx request a =
          (s.answered ctx request a.behave).handleDisconnectionEvent ctx a.disposal) ∨
      (Caught a.behave (s.selected request) request ∧ a.sent ≠ .sigpipe ∧ ¬ Closes request ∧
        s.respond ctx request a = (s.answered ctx request a.behave,
          (request.getHeader (bytes "Connection")).map fun _ => ())) := by
  by_cases hc : Caught a.behave (s.selected request) request
  · by_cases hsent : a.sent = .sigpipe
    · exact Or.inr (Or.inl ⟨hc, hsent, respond_of_sigpipe hc hsent⟩)
    · have hrespond := @respond_of_caught H s ctx request a hc hsent
      by_cases hcl : Closes request
      · rw [if_pos hcl] at hrespond
        exact Or.inr (Or.inr (Or.inl ⟨hc, hsent, hcl, hrespond⟩))
      · rw [if_neg hcl] at hrespond
        exact Or.inr (Or.inr (Or.inr ⟨hc, hsent, hcl, hrespond⟩))
  · exact Or.inl ⟨hc, respond_of_not_caught ctx hc⟩

/-- The header is found or `GetHeader` throws. -/
theorem map_getHeader_cases (request : HttpRequest) :
    (request.getHeader (bytes "Connection")).map (fun _ => ()) = .ok () ∨
      ∃ ex, (request.getHeader (bytes "Connection")).map (fun _ => ()) = .error (.thrown ex) := by
  unfold HttpRequest.getHeader
  cases HttpRequest.headerIn (bytes "Connection") request.headers with
  | none => exact Or.inr ⟨_, rfl⟩
  | some value => exact Or.inl rfl

/-- The state when a message has been through the parser. -/
def digested (s : ServerState H) (message : ByteString) : ServerState H :=
  { s with parser := (s.parser.requestFromBuffer message).1 }

@[simp] theorem selected_digested (s : ServerState H) (message : ByteString)
    (request : HttpRequest) : (s.digested message).selected request = s.selected request := rfl

@[simp] theorem log_digested (s : ServerState H) (message : ByteString) :
    (s.digested message).log = s.log := rfl

/-- `OnClientMessage` goes on with what the parser returns. -/
theorem onClientMessage_of_ok {s : ServerState H} {message : ByteString} {request : HttpRequest}
    (h : (s.parser.requestFromBuffer message).2 = .ok request) (ctx : Addr)
    (a : MessageAnswer H) :
    s.onClientMessage ctx message a = (s.digested message).respond ctx request a := by
  unfold onClientMessage digested
  rcases hp : s.parser.requestFromBuffer message with ⟨parser, r⟩
  rw [hp] at h
  simp only at h
  subst h
  rfl

theorem onClientMessage_of_error {s : ServerState H} {message : ByteString} {f : Fault}
    (h : (s.parser.requestFromBuffer message).2 = .error f) (ctx : Addr)
    (a : MessageAnswer H) :
    s.onClientMessage ctx message a = (s.digested message, .error f) := by
  unfold onClientMessage digested
  rcases hp : s.parser.requestFromBuffer message with ⟨parser, r⟩
  rw [hp] at h
  simp only at h
  subst h
  rfl

/-! ## Dispatch -/

/-- What `OnClientMessage` has done when it ends with `result` after a message that
parses to `request`, if `response` is what it wrote. -/
structure Dispatched (s : ServerState H) (ctx : Addr) (request : HttpRequest)
    (a : MessageAnswer H) (response : HttpResponse)
    (result : ServerState H × Except Fault Unit) : Prop where
  /-- One handler at most, the one that is selected, is called at most once; then one
  response is written; then, if the request asks to close, `send` has returned and so has the
  `kevent` of the disposal, the connection is disposed of. -/
  log : result.1.log = s.log ++
    (Action.parsed ctx request :: handlerCall (s.selected request) request ++
      Action.wrote ctx response (bufferFromResponse response) ::
        if Closes request ∧ a.sent ≠ .sigpipe ∧ a.disposal.waited = .returned then
          [Action.disposed ctx]
        else [])
  not_found : s.selected request = none →
    response.code = .notFound ∧
      response.body = cString (formatThis "Resource " request.path " not found")
  returned : ∀ handler left, s.selected request = some handler →
    a.behave handler request (freshResponse request) = (left, .ok ()) → response = left
  http : ∀ handler left ex status what, s.selected request = some handler →
    a.behave handler request (freshResponse request) = (left, .error ex) →
    ex.asHttpException = some (status, what) → response.code = status ∧ response.body = what
  runtime : ∀ handler left ex what, s.selected request = some handler →
    a.behave handler request (freshResponse request) = (left, .error ex) →
    ex.asHttpException = none → ex.asRuntimeError = some what →
    response.code = .internalServerError ∧ response.body = what
  /-- Where the calls into the system return, a request to close ends well, and one without a
  `Connection` header makes `OnClientMessage` throw what `GetHeader` throws. -/
  ends : result.2 = a.sent.outcome.bind fun _ =>
    if Closes request then disposalOutcome s.channel a.disposal
    else (request.getHeader (bytes "Connection")).map fun _ => ()

/-- What `respond` does with a request whose handler ends in a way that is caught. -/
theorem respond_log {s : ServerState H} {ctx : Addr} {request : HttpRequest}
    {a : MessageAnswer H} (h : Caught a.behave (s.selected request) request) :
    (s.respond ctx request a).1.log = (s.answered ctx request a.behave).log ++
        (if Closes request ∧ a.sent ≠ .sigpipe ∧ a.disposal.waited = .returned then
          [Action.disposed ctx] else []) ∧
      (s.respond ctx request a).2 = a.sent.outcome.bind fun _ =>
        if Closes request then disposalOutcome s.channel a.disposal
        else (request.getHeader (bytes "Connection")).map fun _ => () := by
  rcases respond_cases s ctx request a with
    ⟨hn, -⟩ | ⟨-, hsent, heq⟩ | ⟨-, hsent, hcl, heq⟩ | ⟨-, hsent, hcl, heq⟩
  · exact absurd h hn
  · rw [heq, if_neg fun hc => hc.2.1 hsent, hsent]
    exact ⟨(List.append_nil _).symm, rfl⟩
  · obtain ⟨n, hn⟩ := Written.exists_returned hsent
    rw [heq, (handleDisconnectionEvent_frame ..).1, handleDisconnectionEvent_snd, if_pos hcl, hn]
    refine ⟨?_, rfl⟩
    rw [shownDisposal]
    simp only [hcl, true_and, ne_eq, reduceCtorEq, not_false_eq_true]
  · obtain ⟨n, hn⟩ := Written.exists_returned hsent
    rw [heq, if_neg fun hc => hcl hc.1, if_neg hcl, hn]
    exact ⟨(List.append_nil _).symm, rfl⟩

/-- **Dispatch is correct for every request that parses**, unless its handler throws
something that is not a `std::runtime_error`. -/
theorem onClientMessage_dispatch {s : ServerState H} {ctx : Addr} {message : ByteString}
    {request : HttpRequest} {a : MessageAnswer H}
    (hr : (s.parser.requestFromBuffer message).2 = .ok request)
    (hc : ∀ handler left ex, s.selected request = some handler →
      a.behave handler request (freshResponse request) = (left, .error ex) →
      ex.asRuntimeError.isSome) :
    ∃ response, Dispatched s ctx request a response (s.onClientMessage ctx message a) := by
  have hcaught : Caught a.behave (s.selected request) request := by
    intro ex hex
    cases hsel : s.selected request with
    | none =>
      rw [hsel] at hex
      cases hex
      rfl
    | some handler =>
      rw [hsel] at hex
      exact hc handler _ ex hsel (Prod.ext rfl hex)
  obtain ⟨hlog, hends⟩ := @respond_log H (s.digested message) ctx request a hcaught
  refine ⟨answer a.behave (s.selected request) request, ?_, ?_, ?_, ?_, ?_, ?_⟩
  · rw [onClientMessage_of_ok hr, hlog, log_answered, List.append_assoc, List.append_assoc]
    rfl
  · intro hsel
    rw [hsel]
    exact answer_none a.behave request
  · intro handler left hsel hleft
    rw [hsel]
    exact answer_of_ok hleft
  · intro handler left ex status what hsel hleft hex
    rw [hsel]
    exact answer_of_httpException hleft hex
  · intro handler left ex what hsel hleft hhttp hex
    rw [hsel]
    exact answer_of_runtimeError hleft hhttp hex
  · rw [onClientMessage_of_ok hr, hends]
    rfl

/-- The server with one client, and with one route. -/
def oneRoute : ServerState Unit :=
  { oneClient with router := HttpRouter.new.addRoute (bytes "/") (some ()) }

/-- A request that asks to close, and meets a handler that has half filled its response when it
throws an `HttpException`. -/
def closingHalfFilled : MessageAnswer Unit :=
  smoothly (bytes "GET / HTTP/1.1\r\nConnection: close\r\n\r\n") fun _ _ response =>
    (response.setBody (bytes "half"), .error (.httpException .forbidden (bytes "no")))

theorem onClientMessage_dispatch_close :
    ∃ response, Dispatched oneRoute 3
      ⟨bytes "/", .v11, .get, [⟨bytes "Connection", bytes "close"⟩], []⟩ closingHalfFilled response
      (oneRoute.onClientMessage 3 (bytes "GET / HTTP/1.1\r\nConnection: close\r\n\r\n")
        closingHalfFilled) := by
  refine onClientMessage_dispatch (by decide) ?_
  intro handler left ex _ hex
  cases hex
  rfl

/-! ## Messages from the event loop -/

@[simp] theorem catchAll_fst (r : ServerState H × Except Fault Unit) : (catchAll r).1 = r.1 := by
  rcases r with ⟨s, (ex | _ | _ | _ | _ | _) | u⟩ <;> rfl

/-- Only an exception ends at `catch (...)`. -/
theorem catchAll_snd_eq_ok {r : ServerState H × Except Fault Unit} :
    (catchAll r).2 = .ok () ↔ r.2 = .ok () ∨ ∃ ex, r.2 = .error (.thrown ex) := by
  rcases r with ⟨s, (ex | _ | _ | _ | _ | _) | u⟩ <;> simp [catchAll]

/-- An event of the read filter of a client is handled as a message. -/
theorem handleEvent_read {s : ServerState H} {e : FiredEvent H} {ctx : Addr}
    (hid : e.event.ident ≠ s.serverSocket) (hf : e.event.filter = evfiltRead)
    (hctx : e.event.udata = some ctx) :
    s.handleEvent e = catchAll (s.handleMessageEvent ctx e.message) := by
  rw [handleEvent, digestEvent_read hid hf, hctx]

theorem handleMessageEvent_of_read {s : ServerState H} {ctx : Addr} {a : MessageAnswer H}
    {message : ByteString} (hm : a.read = .ok message) (hne : message ≠ []) :
    s.handleMessageEvent ctx a = s.onClientMessage ctx message a := by
  rw [handleMessageEvent, hm]
  exact if_neg hne

/-- The calls that follow on a request which is served return. -/
def CallsReturn (channel : Channel) (a : MessageAnswer H) (request : HttpRequest) : Prop :=
  a.sent ≠ .sigpipe ∧ (Closes request → Returns channel a.disposal)

/-- The loop goes on after a request that is not served, and after one that is if the calls
return. -/
theorem catchAll_respond {s : ServerState H} {ctx : Addr} {request : HttpRequest}
    {a : MessageAnswer H} :
    (catchAll (s.respond ctx request a)).2 = .ok () ↔
      (Caught a.behave (s.selected request) request → CallsReturn s.channel a request) := by
  rw [catchAll_snd_eq_ok]
  rcases respond_cases s ctx request a with
    ⟨hn, ex, heq⟩ | ⟨hc, hsent, heq⟩ | ⟨hc, hsent, hcl, heq⟩ | ⟨hc, hsent, hcl, heq⟩
  · rw [heq]
    exact iff_of_true (Or.inr ⟨ex, rfl⟩) fun hc => absurd hc hn
  · rw [heq]
    refine iff_of_false ?_ fun h => (h hc).1 hsent
    rintro (h | ⟨ex, h⟩)
    · cases h
    · cases h
  · rw [heq, handleDisconnectionEvent_snd]
    rcases disposalOutcome_cases s.channel a.disposal with ⟨hret, hok⟩ | ⟨hret, f, hf, herr⟩
    · exact iff_of_true (Or.inl hok) fun _ => ⟨hsent, fun _ => hret⟩
    · refine iff_of_false ?_ fun h => hret ((h hc).2 hcl)
      rintro (h | ⟨ex, h⟩)
      · cases herr.symm.trans h
      · exact hf ex (Except.error.inj (herr.symm.trans h))
  · rw [heq]
    exact iff_of_true (map_getHeader_cases request) fun _ => ⟨hsent, fun h => absurd h hcl⟩

/-- Whatever ends the loop after a request, it is not that something is read outside of a
container. -/
theorem catchAll_respond_ne_outOfBounds (s : ServerState H) (ctx : Addr) (request : HttpRequest)
    (a : MessageAnswer H) : (catchAll (s.respond ctx request a)).2 ≠ .error .outOfBounds := by
  have hcatch : ∀ r : ServerState H × Except Fault Unit, r.2 ≠ .error .outOfBounds →
      (catchAll r).2 ≠ .error .outOfBounds := by
    rintro ⟨s, (ex | _ | _ | _ | _ | _) | u⟩ hr
    · exact nofun
    all_goals exact hr
  apply hcatch
  rcases respond_cases s ctx request a with
    ⟨-, ex, heq⟩ | ⟨-, -, heq⟩ | ⟨-, -, -, heq⟩ | ⟨-, -, -, heq⟩
  · rw [heq]
    exact nofun
  · rw [heq]
    exact nofun
  · rw [heq, handleDisconnectionEvent_snd]
    exact disposalOutcome_ne_outOfBounds s.channel a.disposal
  · rw [heq]
    rcases map_getHeader_cases request with hok | ⟨ex, hthrow⟩
    · exact fun h => nomatch hok.symm.trans h
    · exact fun h => nomatch hthrow.symm.trans h

/-- Is it a response to this connection? -/
def isResponseTo (ctx : Addr) : Action H → Bool
  | .wrote c _ _ => c = ctx
  | _ => false

/-- The number of responses written to a connection. -/
def responsesTo (s : ServerState H) (ctx : Addr) : ℕ := s.log.countP (isResponseTo ctx)

/-- The event is handled, control is back in the loop, and exactly one response has
been written to the connection. -/
def RespondsOnce (s : ServerState H) (ctx : Addr) (e : FiredEvent H) : Prop :=
  (s.handleEvent e).2 = .ok () ∧
    (s.handleEvent e).1.responsesTo ctx = s.responsesTo ctx + 1

theorem countP_handlerCall (ctx : Addr) (handler : HttpHandler H) (request : HttpRequest) :
    (handlerCall handler request).countP (isResponseTo ctx) = 0 := by
  cases handler <;> rfl

theorem responsesTo_routed (s : ServerState H) (ctx c : Addr) (request : HttpRequest) :
    (s.routed c request).responsesTo ctx = s.responsesTo ctx := by
  unfold responsesTo routed
  rw [List.countP_append, List.countP_cons, countP_handlerCall]
  rfl

theorem responsesTo_answered (s : ServerState H) (ctx : Addr) (request : HttpRequest)
    (behave : Behaviour H) :
    (s.answered ctx request behave).responsesTo ctx = s.responsesTo ctx + 1 := by
  rw [← responsesTo_routed s ctx ctx request]
  unfold answered writeResponse responsesTo
  rw [List.countP_append]
  simp [isResponseTo]

/-- One response to a request whose handler ends in a way that is caught. -/
theorem responsesTo_respond {s : ServerState H} {ctx : Addr} {request : HttpRequest}
    {a : MessageAnswer H} (h : Caught a.behave (s.selected request) request) :
    (s.respond ctx request a).1.responsesTo ctx = s.responsesTo ctx + 1 := by
  rw [← responsesTo_answered s ctx request a.behave, responsesTo, (respond_log h).1,
    List.countP_append]
  split_ifs <;> rfl

/-- **Exactly which messages are answered once**: those that parse, if the handler
they select does not throw anything but a `std::runtime_error`, and the calls into the system
return. -/
theorem respondsOnce_iff {s : ServerState H} (hp : s.parser.Reachable) {e : FiredEvent H}
    {ctx : Addr} {message : ByteString} (hid : e.event.ident ≠ s.serverSocket)
    (hf : e.event.filter = evfiltRead) (hctx : e.event.udata = some ctx)
    (hm : e.message.read = .ok message) (hne : message ≠ []) :
    RespondsOnce s ctx e ↔
      Parses message ∧ ∀ request, HttpParser.parse message = .ok request →
        Caught e.message.behave (s.selected request) request ∧
          CallsReturn s.channel e.message request := by
  have hparse := hp.requestFromBuffer_snd message
  rw [RespondsOnce, handleEvent_read hid hf hctx, handleMessageEvent_of_read hm hne, catchAll_fst]
  cases hr : HttpParser.parse message with
  | error f =>
    have hn : ¬ Parses message := by
      rw [← HttpParser.parse_ok_iff, hr]
      rintro ⟨r, h⟩
      cases h
    rw [onClientMessage_of_error (hparse.trans hr)]
    simp [hn, responsesTo]
  | ok request =>
    have hpm : Parses message := HttpParser.parse_ok_iff.1 ⟨request, hr⟩
    rw [onClientMessage_of_ok (hparse.trans hr), catchAll_respond]
    simp only [hpm, true_and, Except.ok.injEq, forall_eq']
    constructor
    · rintro ⟨hreturn, hcount⟩
      have hc : Caught e.message.behave (s.selected request) request := by
        by_contra hc
        obtain ⟨ex, hex⟩ := @respond_of_not_caught H (s.digested message) ctx request e.message hc
        rw [hex, responsesTo_routed] at hcount
        exact Nat.ne_of_lt (Nat.lt_succ_self _) hcount
      exact ⟨hc, hreturn hc⟩
    · rintro ⟨hc, hreturn⟩
      exact ⟨fun _ => hreturn, @responsesTo_respond H (s.digested message) ctx request e.message hc⟩

/-- A request of the one client is answered once. -/
theorem respondsOnce_iff_get :
    RespondsOnce oneClient 3
      (messageEvent 4 3 (bytes "GET / HTTP/1.1\r\nHost: a\r\n\r\n")
        fun _ _ response => (response, .ok ())) := by
  refine (respondsOnce_iff (.new .v11) (by decide) rfl rfl rfl (by decide)).2 ⟨?_, ?_⟩
  · exact ⟨bytes "GET / HTTP/1.1", [bytes "Host: a"], bytes "GET", bytes "/",
      [bytes "HTTP/1.1"], by decide, by decide, by decide, by decide⟩
  · intro request _
    refine ⟨?_, nofun, fun _ => ⟨rfl, fun _ => nofun⟩⟩
    intro ex hex
    cases hex
    rfl

/-- A header line that ends at its colon gets no response, and neither does a request
whose handler throws something that is not a `std::runtime_error`. -/
theorem not_respondsOnce :
    ¬ RespondsOnce oneClient 3
        (messageEvent 4 3 (bytes "GET / HTTP/1.1\r\nA:\r\n\r\n")
          fun _ _ response => (response, .ok ())) ∧
      ¬ RespondsOnce oneRoute 3
        (messageEvent 4 3 (bytes "GET / HTTP/1.1\r\nHost: a\r\n\r\n")
          fun _ _ response => (response, .error .other)) :=
  ⟨fun h => absurd h.2 (by decide), fun h => absurd h.2 (by decide)⟩

/-- What responding leaves alone, and what it does to the routes. -/
theorem respond_frame (s : ServerState H) (ctx : Addr) (request : HttpRequest)
    (a : MessageAnswer H) :
    (s.respond ctx request a).1.parser = s.parser ∧
      (s.respond ctx request a).1.serverSocket = s.serverSocket ∧
      (s.respond ctx request a).1.channel = s.channel ∧
      (s.respond ctx request a).1.router =
        (s.router.getHandler request.path request.method).1 := by
  rcases respond_cases s ctx request a with
    ⟨-, ex, heq⟩ | ⟨-, -, heq⟩ | ⟨-, -, -, heq⟩ | ⟨-, -, -, heq⟩
  · rw [heq]
    exact ⟨rfl, rfl, rfl, rfl⟩
  · rw [heq]
    exact ⟨rfl, rfl, rfl, rfl⟩
  · rw [heq]
    obtain ⟨-, hrouter, hparser, hserver, hchannel⟩ :=
      handleDisconnectionEvent_frame (s.answered ctx request a.behave) ctx a.disposal
    exact ⟨hparser, hserver, hchannel, hrouter⟩
  · rw [heq]
    exact ⟨rfl, rfl, rfl, rfl⟩

end ServerState

end WebServer
