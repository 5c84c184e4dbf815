import WebServer.Server.BootSequence
import WebServer.Server.ResponseStream

/-!
# The sample server

The server that `main` of the samples boots: two routes and their handlers.

* `Sample.responseTo_router` — what it answers.
* `Sample.dialogue_iff` — when a client reads an answer to each of its requests, from the
  bytes that it sends to the bytes that it gets.
-/

namespace WebServer

namespace Sample

open ServerState
open HttpResponse (reader reading)

/-- The handlers. -/
inductive Handler
  | handleBaseRoute
  | handleRegisterRoute
  deriving DecidableEq

/-- `HandleBaseRoute`.  In a build with traces the length of a body is asked for, and
`GetHeader` throws if it is missing. -/
def handleBaseRoute (debug : Bool) (request : HttpRequest) (response : HttpResponse) :
    HttpResponse × Except CppException Unit :=
  let key := bytes "Content-Length"
  if debug ∧ request.hasBody ∧ HttpRequest.headerIn key request.headers = none then
    (response, .error (HttpRequest.headerNotFound key))
  else
    let response := response.setStatusCode .ok
    let response := response.setProtocol .v11
    let response := response.setBody (bytes "\x7b\"obj\": true\x7d")
    let response := response.addHeader ⟨bytes "Connection", bytes "Keep-Alive"⟩
    (response.addHeader ⟨bytes "Content-Type", bytes "application/json"⟩, .ok ())

/-- `HandleRegisterRoute` does nothing. -/
def handleRegisterRoute (_request : HttpRequest) (response : HttpResponse) :
    HttpResponse × Except CppException Unit :=
  (response, .ok ())

/-- What the handlers do. -/
def behave (debug : Bool) : Behaviour Handler
  | .handleBaseRoute => handleBaseRoute debug
  | .handleRegisterRoute => handleRegisterRoute

/-- The routes that `main` registers. -/
def router : HttpRouter Handler :=
  (HttpRouter.new.addRouteMethod (bytes "/") .get (some .handleBaseRoute)).addRouteMethod
    (bytes "/register") .post (some .handleRegisterRoute)

/-- The settings of `main`. -/
def options (numbers : OptionNumbers) : ServerConfiguration :=
  let builder := SocketOptionBuilder.new
  let builder := builder.withReuseAddress numbers
  let builder := builder.withReusePort numbers
  let builder := builder.withKeepAlive numbers
  let builder := builder.withMaxQueuedConnection 100
  let builder := builder.withServerPort 21000
  let builder := builder.withSSL true
  let builder := builder.withCertificate (bytes "cert.pem")
  let builder := builder.withPrivateKey (bytes "key.pem")
  builder.build

/-- The server that `main` boots. -/
def server (numbers : OptionNumbers) : HttpServer Handler := ⟨router, some (options numbers)⟩

/-- What the sample is for: `GET /` gets an object, `POST /register` gets nothing, and
everything else is not found. -/
def answerTo (request : HttpRequest) : HttpResponse :=
  if request.path = bytes "/" ∧ request.method = .get then
    ⟨.ok, .v11, [⟨bytes "server", bytes "cpp-webserver-eventdriven-1.0"⟩,
      ⟨bytes "Connection", bytes "Keep-Alive"⟩, ⟨bytes "Content-Type", bytes "application/json"⟩],
      bytes "\x7b\"obj\": true\x7d"⟩
  else if request.path = bytes "/register" ∧ request.method = .post then
    ⟨.ok, request.protocol, [⟨bytes "server", bytes "cpp-webserver-eventdriven-1.0"⟩], []⟩
  else
    ⟨.notFound, request.protocol, [⟨bytes "server", bytes "cpp-webserver-eventdriven-1.0"⟩,
      ⟨bytes "Connection", bytes "Close"⟩, ⟨bytes "Content-Type", bytes "text/html"⟩,
      ⟨bytes "Content-Length", bytes "0"⟩],
      bytes "Resource " ++ (cString request.path ++ bytes " not found")⟩

theorem getHandler_router (path : ByteString) (method : HttpMethod) :
    (router.getHandler path method).2 =
      if path = bytes "/" ∧ method = .get then some .handleBaseRoute
      else if path = bytes "/register" ∧ method = .post then some .handleRegisterRoute
      else none := by
  have hne : bytes "/" ≠ bytes "/register" := by decide
  rw [HttpRouter.getHandler_snd, router]
  by_cases hregister : path = bytes "/register"
  · subst hregister
    rw [HttpRouter.view_addRouteMethod, if_neg fun h => hne h.1.symm]
    simp only [Option.getD_some, true_and]
  · rw [HttpRouter.view_addRouteMethod_of_ne _ hregister]
    by_cases hbase : path = bytes "/"
    · subst hbase
      rw [HttpRouter.view_addRouteMethod]
      simp only [Option.getD_some, true_and, hregister, false_and, if_false]
    · have hnone : HttpRouter.view (HttpRouter.new (H := Handler)) path = none :=
        HttpRouter.view_eq_none_iff.2 Finmap.notMem_empty
      rw [HttpRouter.view_addRouteMethod_of_ne _ hbase, hnone, if_neg fun h => hbase h.1,
        if_neg fun h => hregister h.1]
      rfl

/-- `GET` has no body to be asked for. -/
theorem handleBaseRoute_of_get (debug : Bool) {request : HttpRequest}
    (h : request.method = .get) (response : HttpResponse) :
    handleBaseRoute debug request response = handleBaseRoute false request response := by
  have hbody : request.hasBody = false := by
    rw [HttpRequest.hasBody, h]
    rfl
  simp only [handleBaseRoute, hbody, Bool.false_eq_true, false_and, and_false]

theorem cString_notFound (path : ByteString) :
    cString (formatThis "Resource " path " not found") =
      bytes "Resource " ++ (cString path ++ bytes " not found") := by
  refine cString_of_notMem ?_
  simp only [formatThis, List.mem_append, not_or]
  exact ⟨by decide, zero_notMem_cString path, by decide⟩

/-- **What the sample answers**, with traces or without. -/
theorem responseTo_router (debug : Bool) (request : HttpRequest) :
    responseTo router (request, behave debug) = some (answerTo request) := by
  rw [responseTo, getHandler_router, answerTo]
  split_ifs with hbase hregister
  · simp only [serve, callHandler, behave, handleBaseRoute_of_get debug hbase.2]
    rfl
  · rfl
  · simp only [serve, callHandler, resourceNotFound, CppException.asHttpException,
      cString_notFound]
    rfl

/-! ## The dialogue with a client -/

/-- The answer to the request has less than 2^16 bytes: all have but the 404 of a path with
more than 65336. -/
def Fits (request : HttpRequest) : Prop :=
  request.path = bytes "/" ∧ request.method = .get ∨
    request.path = bytes "/register" ∧ request.method = .post ∨
    (cString request.path).length ≤ 65336

/-- How long an answer is. -/
theorem length_answerTo_lt_iff (request : HttpRequest) :
    (responseText (answerTo request)).length < 65536 ↔ Fits request := by
  rw [HttpResponse.length_responseText, HttpResponse.length_headerBlock, answerTo, Fits]
  split_ifs with hbase hregister
  · exact iff_of_true (by decide) (Or.inl hbase)
  · refine iff_of_true ?_ (Or.inr (Or.inl hregister))
    show 163 + (getReadableStatusCode .ok).length + (decimal 0).length + 0 < 65536
    decide
  · have hbody : (bytes "Resource " ++ (cString request.path ++ bytes " not found")).length =
        (cString request.path).length + 19 := by
      have hlit : (bytes "Resource ").length = 9 ∧ (bytes " not found").length = 10 := by decide
      rw [List.length_append, List.length_append, hlit.1, hlit.2]
      omega
    have hstatus : (getReadableStatusCode .notFound).length = 12 := by decide
    simp only [hbase, hregister, false_or, hbody, hstatus]
    have hdigits : ∀ n k, 0 < k →
        ((decimal n).length ≤ k ↔ n < 10 ^ k) := by
      intro n k hk
      rw [decimal_eq, List.length_map]
      exact Nat.length_toDigits_le_iff (by decide) hk
    have hfour := hdigits ((cString request.path).length + 19) 4 (by decide)
    have hfive := hdigits ((cString request.path).length + 19) 5 (by decide)
    omega

/-- The requests that a connection brings. -/
def requestsOf {H : Type} (events : List (EventType × MessageAnswer H)) : List HttpRequest :=
  (events.filterMap brought).map Prod.fst

/-- What a run of the sample writes to a connection. -/
theorem answersTo_sample {debug : Bool} {boot : Boot Handler} (hrouter : boot.router = router)
    {allowed : ServerState Handler → FiredEvent Handler → Prop}
    {earlier es : List (FiredEvent Handler)}
    {c₀ c : EventLoop.Config (ServerState Handler) (FiredEvent Handler) Fault}
    (h₀ : EventLoop.Trace (handleConnections Handler) allowed boot.state earlier c₀)
    (h : EventLoop.Trace (handleConnections Handler) allowed boot.state (earlier ++ es) c)
    (hbehave : ∀ e ∈ es, e.message.behave = behave debug)
    {log : List (Action Handler)} (hlog : c.state.log = c₀.state.log ++ log) (ctx : Addr) :
    answersTo ctx log =
      (requestsOf (received boot.serverSocket ctx es)).map (withBuffer ∘ answerTo) := by
  have hresponses : ∀ p ∈ (received boot.serverSocket ctx es).filterMap brought,
      responseTo boot.router p = some (answerTo p.1) := by
    intro p hp
    obtain ⟨x, hx, hbrought⟩ := List.mem_filterMap.1 hp
    obtain ⟨e, he, hreceived⟩ := List.mem_filterMap.1 hx
    have hmessage : x.2.behave = behave debug := by
      split at hreceived
      · obtain rfl := Option.some.inj hreceived
        exact hbehave e he
      · cases hreceived
    have hp2 : p.2 = x.2.behave := by
      unfold brought at hbrought
      split at hbrought
      · obtain ⟨request, -, rfl⟩ := Option.map_eq_some_iff.1 hbrought
        rfl
      · cases hbrought
    have hpair : p = (p.1, behave debug) := Prod.ext rfl (hp2.trans hmessage)
    rw [hrouter, hpair]
    exact responseTo_router debug p.1
  rw [answersTo_trace h₀ h hlog ctx, List.filterMap_congr hresponses, requestsOf, List.map_map,
    ← List.filterMap_eq_map, ← List.filterMap_eq_map, List.filterMap_filterMap]
  rfl

/-- **The dialogue of the sample.**  Let `main` boot the server, in whatever world.  From some
moment on, and to the bytes that a connection sends in whatever messages they are read, the
client gets the answers that `answerTo` describes, one to each request and in order, from the
bytes that arrive in whatever chunks: exactly if it asks for no path that the answer can not
quote. -/
theorem dialogue_iff {debug : Bool} {numbers : OptionNumbers} {w : World} {boot : Boot Handler}
    (hboot : ((server numbers).boot numbers w).2 = .ok boot)
    {allowed : ServerState Handler → FiredEvent Handler → Prop}
    {earlier es : List (FiredEvent Handler)}
    {c₀ c : EventLoop.Config (ServerState Handler) (FiredEvent Handler) Fault}
    (h₀ : EventLoop.Trace (handleConnections Handler) allowed boot.state earlier c₀)
    (h : EventLoop.Trace (handleConnections Handler) allowed boot.state (earlier ++ es) c)
    (hbehave : ∀ e ∈ es, e.message.behave = behave debug)
    {log : List (Action Handler)} (hlog : c.state.log = c₀.state.log ++ log) (ctx : Addr)
    {room : ℕ → ℕ} (hroom : ∀ k, 65535 ≤ room k) (channel : Channel) (fresh : ℕ → Addr)
    {chunks : List ByteString}
    (hchunks : chunks.flatten = (Outgoing.send room channel fresh ⟨[], 0, ∅⟩
      ((answersTo ctx log).map Prod.snd)).accepted) :
    (reader.receive chunks).messages =
        (requestsOf (received boot.serverSocket ctx es)).map (reading ∘ answerTo) ↔
      ∀ request ∈ requestsOf (received boot.serverSocket ctx es), Fits request := by
  have hrouter : boot.router = router := by
    rw [HttpServer.eq_booted hboot]
    rfl
  have hanswers := answersTo_sample hrouter h₀ h hbehave hlog ctx
  have hbuffer : ∀ p ∈ answersTo ctx log, p.2 = bufferFromResponse p.1 := by
    rw [hanswers]
    exact List.forall_mem_map.2 fun request _ => rfl
  have hread := messages_eq_iff hbuffer room channel fresh hchunks
  rw [hanswers, List.map_map, List.map_map] at hread
  refine hread.trans ⟨fun hwhole request hrequest => ?_, fun hfits k response hk => ?_⟩
  · obtain ⟨k, hk⟩ := List.mem_iff_getElem?.1 hrequest
    have hshort := hwhole k (answerTo request) (by rw [List.getElem?_map, hk]; rfl)
    exact (length_answerTo_lt_iff request).1 hshort.1
  · rw [List.getElem?_map, Option.map_eq_some_iff] at hk
    obtain ⟨request, hrequest, rfl⟩ := hk
    have hshort := (length_answerTo_lt_iff request).2
      (hfits request (List.mem_of_getElem? hrequest))
    exact ⟨hshort, (Nat.le_of_lt_succ hshort).trans (hroom k)⟩

/-- The system calls them so on Linux. -/
def linuxNumbers : OptionNumbers := ⟨9, 2, 15⟩

/-- A world in which nothing fails. -/
def world : World where
  socket := 3
  setsockopt := fun _ => 0
  files := fun _ => some [1]
  currentWorkingDirectory := bytes "/"
  tlsConfigNew := true
  tlsServer := true
  tlsConfigParseProtocols := 0
  tlsConfigSetCiphers := 0
  tlsConfigSetKeyMem := fun _ => 0
  tlsConfigSetCertMem := fun _ => 0
  tlsConfigure := fun _ _ => 0
  bind := fun _ => 0
  listen := fun _ => 0
  registered := .returned
  strerror := []
  blocks := [5, 4, 3]
  contexts := fun _ => ⟨⟨0, 0, .unsupported, .unknown⟩, none, false⟩
  hashFn := UInt32.toNat
  blocks_length := rfl
  blocks_nodup := by decide

/-- The sample in that world. -/
def boot : Boot Handler := (server linuxNumbers).booted linuxNumbers world

/-- A client is accepted on descriptor 4. -/
def accepted : FiredEvent Handler := acceptEvent 3 ⟨10, 4, ⟨.inet, 80⟩, 0, none⟩

/-- It asks for `/`. -/
def asked : FiredEvent Handler :=
  messageEvent 4 3 (bytes "GET / HTTP/1.1\r\nConnection: close\r\n\r\n") (behave true)

/-- The sample after its client was accepted. -/
def ready : ServerState Handler := (boot.state.handleEvent accepted).1

theorem trace_accepted : EventLoop.Trace (handleConnections Handler) (fun _ _ => True) boot.state
    [accepted] ⟨ready, [], none⟩ := by
  have hdeliver : (handleConnections Handler).deliverable boot.state [accepted] :=
    deliverable_singleton (Or.inl rfl)
  have hadmissible : (handleConnections Handler).admissible boot.state accepted := by
    intro _
    unfold MemoryPool.Knows
    exact ⟨by decide, Or.inr ⟨by decide, by decide⟩⟩
  have hstart : EventLoop.Trace (handleConnections Handler) (fun _ _ => True) boot.state [] _ :=
    .start
  exact (hstart.fetch hdeliver).handle hadmissible trivial

theorem trace_asked : EventLoop.Trace (handleConnections Handler) (fun _ _ => True) boot.state
    ([accepted] ++ [asked]) (EventLoop.process (handleConnections Handler) ready asked []) := by
  refine (trace_accepted.fetch (deliverable_singleton (Or.inr ?_))).handle ?_ trivial
  · show ready.registrations.lookup 4 = some (some 3)
    decide
  · intro hid
    change 4 = ready.serverSocket at hid
    exact absurd hid (by decide)

theorem requestsOf_asked : requestsOf (received 3 3 [asked]) =
    [⟨bytes "/", .v11, .get, [⟨bytes "Connection", bytes "close"⟩], []⟩] := by
  have hparse : HttpParser.parse (bytes "GET / HTTP/1.1\r\nConnection: close\r\n\r\n") =
      .ok ⟨bytes "/", .v11, .get, [⟨bytes "Connection", bytes "close"⟩], []⟩ := by
    rw [← (HttpParser.Reachable.new .v11).requestFromBuffer_snd]
    decide
  have hrequest : asked.message.request? =
      some ⟨bytes "/", .v11, .get, [⟨bytes "Connection", bytes "close"⟩], []⟩ :=
    MessageAnswer.request?_of_ok rfl (by decide) hparse
  have hreceived : received 3 3 [asked] = [(.read, asked.message)] := rfl
  simp only [requestsOf, hreceived, List.filterMap_cons, List.filterMap_nil, brought, hrequest,
    Option.map_some, List.map_cons, List.map_nil]

/-- One request and its answer, byte by byte. -/
theorem dialogue_iff_asked :
    (reader.receive ((Outgoing.send (fun _ => 65535) .secure (fun _ => 9) ⟨[], 0, ∅⟩
        ((answersTo 3 (ready.handleEvent asked).1.log).map Prod.snd)).accepted.map
          fun b => [b])).messages =
      (requestsOf (received 3 3 [asked])).map (reading ∘ answerTo) := by
  have hbehave : ∀ e ∈ [asked], e.message.behave = behave true :=
    List.forall_mem_singleton.2 rfl
  have hlog : (EventLoop.process (handleConnections Handler) ready asked []).state.log =
      ready.log ++ (ready.handleEvent asked).1.log := (List.nil_append _).symm
  have hfits : ∀ request ∈ requestsOf (received 3 3 [asked]), Fits request := by
    rw [requestsOf_asked]
    exact List.forall_mem_singleton.2 (Or.inl ⟨rfl, rfl⟩)
  have hboot : ((server linuxNumbers).boot linuxNumbers world).2 = .ok boot := rfl
  exact (dialogue_iff hboot trace_accepted trace_asked hbehave hlog 3 (fun _ => le_rfl) .secure
    (fun _ => 9) (List.flatMap_singleton' _)).2 hfits

end Sample

end WebServer
