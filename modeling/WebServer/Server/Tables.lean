import WebServer.Http.ParserHistory
import WebServer.Server.Dispatch

/-!
# What messages enter into the tables of the server

`GetHandler` and `RequestFromBuffer` look things up with `operator[]`, which enters what it
does not find.  So a message leaves its first word in the method table of the parser, and a
message that parses leaves its path, and under the path its method, in the router.

* `HttpRouter.mem_foldl_routerAfter`, `HttpRouter.hasEntry_foldl_routerAfter` — what there is
  in the router after a list of messages.
* `run_tables` — what `OnClientMessage` makes of the two tables, message by message.
* `keepsTables_iff` — the messages that enter nothing.
-/

namespace WebServer

/-! ## Registration -/

/-- A call of `AddRoute`, for all methods or for one. -/
structure RouteCall (H : Type) where
  path : ByteString
  method : Option HttpMethod
  handler : HttpHandler H

namespace HttpRouter

variable {H : Type}

/-- The call. -/
def register (r : HttpRouter H) (c : RouteCall H) : HttpRouter H :=
  match c.method with
  | none => r.addRoute c.path c.handler
  | some method => r.addRouteMethod c.path method c.handler

/-- The router with its routes registered. -/
def registered (calls : List (RouteCall H)) : HttpRouter H := calls.foldl register new

theorem mem_register {r : HttpRouter H} {c : RouteCall H} {path : ByteString} :
    path ∈ (r.register c).routes ↔ path ∈ r.routes ∨ c.path = path := by
  rw [register]
  cases c.method with
  | none =>
    show path ∈ (r.addRoute c.path c.handler).routes ↔ _
    rw [addRoute]
    by_cases hmem : c.path ∈ r.routes
    · rw [if_pos hmem]
      exact ⟨Or.inl, fun h => h.elim id fun heq => heq ▸ hmem⟩
    · rw [if_neg hmem, Finmap.mem_insert, or_comm, eq_comm]
  | some method =>
    show path ∈ (r.addRouteMethod c.path method c.handler).routes ↔ _
    rw [addRouteMethod, Finmap.mem_insert, or_comm, eq_comm]

/-- The router has entries for exactly the registered paths. -/
theorem mem_registered {calls : List (RouteCall H)} {path : ByteString} :
    path ∈ (registered calls).routes ↔ ∃ c ∈ calls, c.path = path := by
  unfold registered
  rw [Table.foldl_grows register (path ∈ ·.routes) (·.path = path) fun _ _ => mem_register]
  simp [new, Finmap.notMem_empty]

/-! ## Lookups -/

/-- There is an entry for the method under the path. -/
def HasEntry (r : HttpRouter H) (path : ByteString) (method : HttpMethod) : Prop :=
  ∃ route, r.routes.lookup path = some route ∧ method ∈ route

theorem mem_getHandler {r : HttpRouter H} {path q : ByteString} {method : HttpMethod} :
    q ∈ (r.getHandler path method).1.routes ↔ q ∈ r.routes ∨ path = q := by
  simp only [getHandler]
  rw [Finmap.mem_insert, Table.mem_subscript, eq_comm (a := q)]
  tauto

theorem hasEntry_getHandler {r : HttpRouter H} {path q : ByteString} {method k : HttpMethod} :
    HasEntry (r.getHandler path method).1 q k ↔ HasEntry r q k ∨ (path = q ∧ method = k) := by
  simp only [getHandler, HasEntry, Table.subscript_snd]
  by_cases hq : q = path
  · subst hq
    simp only [Finmap.lookup_insert, Option.some.injEq, exists_eq_left', Table.mem_subscript,
      true_and]
    cases r.routes.lookup q with
    | none => simp [Finmap.notMem_empty, eq_comm]
    | some route => simp [or_comm, eq_comm]
  · have hne : path ≠ q := fun h => hq h.symm
    rw [Finmap.lookup_insert_of_ne _ hq, Table.lookup_subscript, if_neg hq]
    simp [hne]

/-- A lookup that finds its entry changes nothing. -/
theorem getHandler_of_hasEntry {r : HttpRouter H} {path : ByteString} {method : HttpMethod}
    (h : HasEntry r path method) : (r.getHandler path method).1 = r := by
  obtain ⟨route, hroute, hmethod⟩ := h
  obtain ⟨handler, hhandler⟩ := Finmap.mem_iff.1 hmethod
  have hsame : r.routes.insert path route = r.routes := by
    refine Finmap.ext_lookup fun q => ?_
    by_cases hq : q = path
    · rw [hq, Finmap.lookup_insert, hroute]
    · rw [Finmap.lookup_insert_of_ne _ hq]
  simp only [getHandler, Table.subscript, hroute, hhandler, hsame]

/-- The router after a message. -/
def routerAfter (r : HttpRouter H) (message : ByteString) : HttpRouter H :=
  match HttpParser.parse message with
  | .error _ => r
  | .ok request => (r.getHandler request.path request.method).1

theorem mem_routerAfter {r : HttpRouter H} {message path : ByteString} :
    path ∈ (r.routerAfter message).routes ↔ path ∈ r.routes ∨
      ∃ request, HttpParser.parse message = .ok request ∧ request.path = path := by
  unfold routerAfter
  cases HttpParser.parse message with
  | error f => simp
  | ok request => simp [mem_getHandler]

theorem hasEntry_routerAfter {r : HttpRouter H} {message path : ByteString}
    {method : HttpMethod} :
    HasEntry (r.routerAfter message) path method ↔ HasEntry r path method ∨
      ∃ request, HttpParser.parse message = .ok request ∧ request.path = path ∧
        request.method = method := by
  unfold routerAfter
  cases HttpParser.parse message with
  | error f => simp
  | ok request => simp [hasEntry_getHandler]

/-- The paths of the router after some messages are those it had and those of the messages
that parse. -/
theorem mem_foldl_routerAfter {messages : List ByteString} {r : HttpRouter H}
    {path : ByteString} :
    path ∈ (messages.foldl routerAfter r).routes ↔ path ∈ r.routes ∨
      ∃ message ∈ messages, ∃ request, HttpParser.parse message = .ok request ∧
        request.path = path :=
  Table.foldl_grows routerAfter (path ∈ ·.routes) _ (fun _ _ => mem_routerAfter) r messages

/-- And so are its entries. -/
theorem hasEntry_foldl_routerAfter {messages : List ByteString} {r : HttpRouter H}
    {path : ByteString} {method : HttpMethod} :
    HasEntry (messages.foldl routerAfter r) path method ↔ HasEntry r path method ∨
      ∃ message ∈ messages, ∃ request, HttpParser.parse message = .ok request ∧
        request.path = path ∧ request.method = method :=
  Table.foldl_grows routerAfter (HasEntry · path method) _ (fun _ _ => hasEntry_routerAfter) r
    messages

/-- A router is the same after messages that only ask for what it has. -/
theorem foldl_routerAfter_eq_iff {messages : List ByteString} {r : HttpRouter H} :
    messages.foldl routerAfter r = r ↔ ∀ message ∈ messages, ∀ request,
      HttpParser.parse message = .ok request → HasEntry r request.path request.method := by
  constructor
  · intro h message hmessage request hparse
    rw [← h, hasEntry_foldl_routerAfter]
    exact Or.inr ⟨message, hmessage, request, hparse, rfl, rfl⟩
  · intro h
    induction messages with
    | nil => rfl
    | cons message messages ih =>
      have hsame : routerAfter r message = r := by
        rw [routerAfter]
        cases hparse : HttpParser.parse message with
        | error f => rfl
        | ok request => exact getHandler_of_hasEntry (h message List.mem_cons_self request hparse)
      rw [List.foldl_cons, hsame]
      exact ih fun message' hmessage => h message' (List.mem_cons_of_mem _ hmessage)

end HttpRouter

/-! ## Words of a message -/

/-- What the request of a message takes from its first line. -/
theorem parse_words {message : ByteString} {request : HttpRequest}
    (h : HttpParser.parse message = .ok request) :
    pathToken message = some request.path ∧
      ∃ token, methodToken message = some token ∧ request.method = methodOf token := by
  have hparses := HttpParser.parse_ok_iff.1 ⟨request, h⟩
  rcases HttpParser.parse_cases message with ⟨hno, -⟩ | ⟨-, hno, -⟩ | ⟨-, m, path, lines, hs, hp, -⟩
  · exact absurd (wellSplit_of_parses hparses) hno
  · exact absurd hparses hno
  · rw [hp, Except.ok.injEq] at h
    subst h
    obtain ⟨startLine, token, rest, hlines, hwords, hm⟩ := HttpParser.startLineOf_eq_ok_iff.1 hs
    rw [split_crlf, Except.ok.injEq] at hlines
    rw [split_space, Except.ok.injEq] at hwords
    simp [pathToken, methodToken, startWords_cons hlines, hwords, hm]

/-! ## Serving messages -/

/-- A call of `OnClientMessage`, and what it meets outside. -/
structure Message (H : Type) where
  ctx : Addr
  text : ByteString
  answer : MessageAnswer H

namespace ServerState

variable {H : Type}

/-- `OnClientMessage`, as a call. -/
def step (s : ServerState H) (message : Message H) : ServerState H × Except Fault Unit :=
  s.onClientMessage message.ctx message.text message.answer

/-- What one message does to the two tables. -/
theorem step_tables {s : ServerState H} (hp : s.parser.Reachable) (message : Message H) :
    (s.step message).1.router = s.router.routerAfter message.text ∧
      (s.step message).1.parser = (s.parser.requestFromBuffer message.text).1 ∧
      (s.step message).1.channel = s.channel := by
  have hresult := hp.requestFromBuffer_snd message.text
  rw [step, HttpRouter.routerAfter]
  cases hparse : HttpParser.parse message.text with
  | error f =>
    rw [onClientMessage_of_error (hresult.trans hparse)]
    exact ⟨rfl, rfl, rfl⟩
  | ok request =>
    rw [onClientMessage_of_ok (hresult.trans hparse)]
    obtain ⟨hparser, -, hchannel, hrouter⟩ :=
      respond_frame (s.digested message.text) message.ctx request message.answer
    exact ⟨hrouter, hparser, hchannel⟩

/-- All calls that follow on the message return. -/
def AllReturn (channel : Channel) (message : Message H) : Prop :=
  ∀ request, HttpParser.parse message.text = .ok request →
    CallsReturn channel message.answer request

/-- How a message ends in the loop, which catches every exception. -/
theorem catchAll_step {s : ServerState H} (hp : s.parser.Reachable) (message : Message H) :
    ((catchAll (s.step message)).2 = .error .outOfBounds ↔ ¬ WellSplit message.text) ∧
      (WellSplit message.text → AllReturn s.channel message →
        (catchAll (s.step message)).2 = .ok ()) := by
  have hresult := hp.requestFromBuffer_snd message.text
  rw [step]
  rcases HttpParser.parse_cases message.text with
    ⟨hn, hr⟩ | ⟨hw, -, hr⟩ | ⟨hpm, m, path, lines, -, hr, -⟩
  · rw [onClientMessage_of_error (hresult.trans hr)]
    exact ⟨iff_of_true rfl hn, fun hw => absurd hw hn⟩
  · rw [onClientMessage_of_error (hresult.trans hr)]
    exact ⟨iff_of_false nofun fun hn => hn hw, fun _ _ => rfl⟩
  · rw [onClientMessage_of_ok (hresult.trans hr), catchAll_respond]
    refine ⟨iff_of_false ?_ fun hn => hn (wellSplit_of_parses hpm),
      fun _ hreturn _ => hreturn _ hr⟩
    exact (s.digested message.text).catchAll_respond_ne_outOfBounds message.ctx _ message.answer

/-- `OnClientMessage` on one message after the other: the loop goes on after an exception, and
after nothing worse. -/
def messageLoop (H : Type) : EventLoop.System (ServerState H) (Message H) Fault where
  handle := fun s message => catchAll (s.step message)
  deliverable := fun _ _ => True
  admissible := fun _ _ => True

/-- What a list of messages does to the tables, if the calls that follow on all but the last
return: either a message makes the parser read outside its deques, or all are handled. -/
theorem run_tables {s : ServerState H} (hp : s.parser.Reachable) {messages : List (Message H)}
    (hreturn : ∀ message ∈ messages.dropLast, AllReturn s.channel message) :
    ((EventLoop.run (messageLoop H) s messages).2 = .error .outOfBounds ↔
        ¬ ∀ message ∈ messages, WellSplit message.text) ∧
      ((∀ message ∈ messages, WellSplit message.text) →
        (EventLoop.run (messageLoop H) s messages).1.router =
            (messages.map Message.text).foldl HttpRouter.routerAfter s.router ∧
          (EventLoop.run (messageLoop H) s messages).1.parser =
            s.parser.parseAll (messages.map Message.text)) := by
  induction messages generalizing s with
  | nil => exact ⟨iff_of_false nofun fun h => h fun _ hm => absurd hm List.not_mem_nil,
      fun _ => ⟨rfl, rfl⟩⟩
  | cons message messages ih =>
    obtain ⟨hbounds, hgo⟩ := catchAll_step hp message
    obtain ⟨hrouter, hparser, hchannel⟩ := step_tables hp message
    have hp' : (catchAll (s.step message)).1.parser.Reachable := by
      rw [catchAll_fst, hparser]
      exact hp.parse _
    by_cases hw : WellSplit message.text
    · cases messages with
      | nil =>
        -- the loop ends with the last message, however that one ends
        rw [EventLoop.run_singleton]
        refine ⟨hbounds.trans (not_congr (by simp)), fun _ => ?_⟩
        show (catchAll (s.step message)).1.router = _ ∧ (catchAll (s.step message)).1.parser = _
        rw [catchAll_fst, hrouter, hparser]
        exact ⟨rfl, rfl⟩
      | cons next rest =>
        have hok := hgo hw (hreturn message (by simp))
        obtain ⟨ihbounds, ihtables⟩ := ih hp' (by
          rw [catchAll_fst, hchannel]
          exact fun m hm => hreturn m (List.mem_cons_of_mem _ hm))
        have hrun : EventLoop.run (messageLoop H) s (message :: next :: rest) =
            EventLoop.run (messageLoop H) (catchAll (s.step message)).1 (next :: rest) :=
          EventLoop.run_cons_of_ok hok
        rw [hrun, List.forall_mem_cons]
        refine ⟨ihbounds.trans (not_congr (and_iff_right hw).symm), fun h => ?_⟩
        obtain ⟨hrouter', hparser'⟩ := ihtables h.2
        rw [hrouter', hparser', catchAll_fst, hrouter, hparser]
        exact ⟨rfl, rfl⟩
    · have herr := hbounds.2 hw
      have hrun : EventLoop.run (messageLoop H) s (message :: messages) =
          catchAll (s.step message) := EventLoop.run_cons_of_error herr
      rw [hrun, List.forall_mem_cons]
      exact ⟨iff_of_true herr fun h => hw h.1, fun h => absurd h.1 hw⟩

/-- A server, in whatever state, with these routes registered and a new parser. -/
def withRoutes (s : ServerState H) (calls : List (RouteCall H)) (protocol : HttpProtocol) :
    ServerState H :=
  { s with router := .registered calls, parser := .new protocol }

/-- A server with these routes on a list of messages. -/
def served (s : ServerState H) (calls : List (RouteCall H)) (protocol : HttpProtocol)
    (messages : List (Message H)) : ServerState H × Except Fault Unit :=
  EventLoop.run (messageLoop H) (s.withRoutes calls protocol) messages

/-- Nothing was read outside of a container, the router has entries for the registered paths,
and the method table is the initial one. -/
structure KeepsTables (calls : List (RouteCall H)) (protocol : HttpProtocol)
    (r : ServerState H × Except Fault Unit) : Prop where
  defined : r.2 ≠ .error .outOfBounds
  paths : ∀ path, path ∈ r.1.router.routes ↔ ∃ c ∈ calls, c.path = path
  methods : r.1.parser.methodMapping = (HttpParser.new protocol).methodMapping

/-- The first word of a message, if it has one, is the name of a method. -/
def KnownMethod (message : ByteString) : Prop :=
  ∀ token, methodToken message = some token → ∃ m, token = methodName m

/-- A message that parses is about a registered path. -/
def KnownPath (calls : List (RouteCall H)) (message : ByteString) : Prop :=
  Parses message → ∃ c ∈ calls, pathToken message = some c.path

/-- And its method has an entry there. -/
def KnownEntry (calls : List (RouteCall H)) (message : ByteString) : Prop :=
  Parses message → ∃ path token, pathToken message = some path ∧
    methodToken message = some token ∧
    (HttpRouter.registered calls).HasEntry path (methodOf token)

theorem knownPath_iff {calls : List (RouteCall H)} {message : ByteString} :
    KnownPath calls message ↔ ∀ request, HttpParser.parse message = .ok request →
      ∃ c ∈ calls, c.path = request.path := by
  constructor
  · intro h request hrequest
    obtain ⟨c, hc, hpath⟩ := h (HttpParser.parse_ok_iff.1 ⟨request, hrequest⟩)
    rw [(parse_words hrequest).1, Option.some.injEq] at hpath
    exact ⟨c, hc, hpath.symm⟩
  · intro h hparses
    obtain ⟨request, hrequest⟩ := HttpParser.parse_ok_iff.2 hparses
    obtain ⟨c, hc, hpath⟩ := h request hrequest
    exact ⟨c, hc, by rw [hpath, (parse_words hrequest).1]⟩

theorem knownEntry_iff {calls : List (RouteCall H)} {message : ByteString} :
    KnownEntry calls message ↔ ∀ request, HttpParser.parse message = .ok request →
      (HttpRouter.registered calls).HasEntry request.path request.method := by
  constructor
  · intro h request hrequest
    obtain ⟨path, token, hpath, htoken, hentry⟩ :=
      h (HttpParser.parse_ok_iff.1 ⟨request, hrequest⟩)
    obtain ⟨hpath', token', htoken', hmethod⟩ := parse_words hrequest
    rw [hpath, Option.some.injEq] at hpath'
    rw [htoken, Option.some.injEq] at htoken'
    rwa [hmethod, ← htoken', ← hpath']
  · intro h hparses
    obtain ⟨request, hrequest⟩ := HttpParser.parse_ok_iff.2 hparses
    obtain ⟨hpath, token, htoken, hmethod⟩ := parse_words hrequest
    exact ⟨request.path, token, hpath, htoken, hmethod ▸ h request hrequest⟩

/-- The method table is the initial one when all first words are names of methods. -/
theorem methods_parseAll_iff (protocol : HttpProtocol) (messages : List (Message H)) :
    ((HttpParser.new protocol).parseAll (messages.map Message.text)).methodMapping =
        (HttpParser.new protocol).methodMapping ↔
      ∀ message ∈ messages, KnownMethod message.text := by
  rw [HttpParser.methodMapping_parseAll_eq_iff, List.forall_mem_map]
  simp only [HttpParser.mem_new, KnownMethod]

/-- The router keeps to the registered paths when all messages that parse do. -/
theorem paths_foldl_iff (calls : List (RouteCall H)) (messages : List (Message H)) :
    (∀ path, path ∈ ((messages.map Message.text).foldl HttpRouter.routerAfter
          (HttpRouter.registered calls)).routes ↔ ∃ c ∈ calls, c.path = path) ↔
      ∀ message ∈ messages, KnownPath calls message.text := by
  simp only [HttpRouter.mem_foldl_routerAfter, HttpRouter.mem_registered, or_iff_left_iff_imp,
    knownPath_iff]
  constructor
  · intro h message hmessage request hrequest
    exact h request.path ⟨_, List.mem_map_of_mem hmessage, request, hrequest, rfl⟩
  · rintro h path ⟨text, htext, request, hrequest, rfl⟩
    obtain ⟨message, hmessage, rfl⟩ := List.mem_map.1 htext
    exact h message hmessage request hrequest

/-- The router is as it was registered when all messages that parse find an entry. -/
theorem router_foldl_iff (calls : List (RouteCall H)) (messages : List (Message H)) :
    (messages.map Message.text).foldl HttpRouter.routerAfter (HttpRouter.registered calls) =
        HttpRouter.registered calls ↔
      ∀ message ∈ messages, KnownEntry calls message.text := by
  rw [HttpRouter.foldl_routerAfter_eq_iff, List.forall_mem_map]
  simp only [knownEntry_iff]

/-- **The tables grow with every new word.**  Let the calls that follow on all messages but the
last return.  Then the parser keeps within its deques, and the tables to the registered paths and
the nine methods, exactly when all messages do; and nothing at all is entered into the tables
exactly when, moreover, the method of a message is one that its path has an entry for. -/
theorem keepsTables_iff (s : ServerState H) (calls : List (RouteCall H))
    (protocol : HttpProtocol) (messages : List (Message H))
    (hreturn : ∀ message ∈ messages.dropLast, AllReturn s.channel message) :
    (KeepsTables calls protocol (s.served calls protocol messages) ↔
        ∀ message ∈ messages, WellSplit message.text ∧ KnownMethod message.text ∧
          KnownPath calls message.text) ∧
      ((s.served calls protocol messages).2 ≠ .error .outOfBounds ∧
          (s.served calls protocol messages).1.router = HttpRouter.registered calls ∧
          (s.served calls protocol messages).1.parser.methodMapping =
            (HttpParser.new protocol).methodMapping ↔
        ∀ message ∈ messages, WellSplit message.text ∧ KnownMethod message.text ∧
          KnownEntry calls message.text) := by
  obtain ⟨hbounds, htables⟩ :=
    @run_tables H (s.withRoutes calls protocol) (.new protocol) messages hreturn
  have hdefined : (s.served calls protocol messages).2 ≠ .error .outOfBounds ↔
      ∀ message ∈ messages, WellSplit message.text := not_iff_comm.1 hbounds.symm
  have hsplit : ∀ {P : Prop} {Q : Message H → Prop},
      ((∀ message ∈ messages, WellSplit message.text) → (P ↔ ∀ message ∈ messages, Q message)) →
      ((s.served calls protocol messages).2 ≠ .error .outOfBounds ∧ P ↔
        ∀ message ∈ messages, WellSplit message.text ∧ Q message) := by
    intro P Q h
    rw [hdefined, and_congr_right h, ← forall₂_and]
  constructor
  · have hkeeps : ∀ r : ServerState H × Except Fault Unit, KeepsTables calls protocol r ↔
        r.2 ≠ .error .outOfBounds ∧
          r.1.parser.methodMapping = (HttpParser.new protocol).methodMapping ∧
            ∀ path, path ∈ r.1.router.routes ↔ ∃ c ∈ calls, c.path = path :=
      fun r => ⟨fun h => ⟨h.defined, h.methods, h.paths⟩, fun h => ⟨h.1, h.2.2, h.2.1⟩⟩
    rw [hkeeps]
    refine hsplit fun hw => ?_
    obtain ⟨hrouter, hparser⟩ := htables hw
    rw [forall₂_and, ← methods_parseAll_iff protocol, ← paths_foldl_iff calls, served, hrouter,
      hparser]
    rfl
  · refine hsplit fun hw => ?_
    obtain ⟨hrouter, hparser⟩ := htables hw
    rw [forall₂_and, ← methods_parseAll_iff protocol, ← router_foldl_iff calls, served, hrouter,
      hparser, and_comm]
    rfl

/-- A client asks for the one route, and another then posts to it. -/
theorem keepsTables_iff_known :
    KeepsTables [⟨bytes "/", none, some ()⟩] .v11 (twoClients.served
      [⟨bytes "/", none, some ()⟩] .v11
      [⟨3, bytes "GET / HTTP/1.1\r\n\r\n", smoothly [] fun _ _ response => (response, .ok ())⟩,
        ⟨2, bytes "POST / HTTP/1.1\r\n\r\nx",
          smoothly [] fun _ _ response => (response, .ok ())⟩]) := by
  refine (keepsTables_iff _ _ _ _ ?_).1.2 ?_
  · intro message hm
    rw [List.eq_of_mem_singleton hm]
    exact fun _ _ => ⟨nofun, fun _ => ⟨rfl, fun _ => nofun⟩⟩
  · rw [List.forall_mem_cons, List.forall_mem_singleton]
    refine ⟨⟨?_, ?_, fun _ => ⟨_, List.mem_cons_self, by decide⟩⟩,
      ⟨?_, ?_, fun _ => ⟨_, List.mem_cons_self, by decide⟩⟩⟩
    · exact ⟨bytes "GET / HTTP/1.1", [], bytes "GET", bytes "/", [bytes "HTTP/1.1"], by decide,
        by decide, by decide⟩
    · intro token htoken
      exact ⟨.get, (Option.some.inj htoken).symm⟩
    · exact ⟨bytes "POST / HTTP/1.1", [bytes "x"], bytes "POST", bytes "/", [bytes "HTTP/1.1"],
        by decide, by decide, by decide⟩
    · intro token htoken
      exact ⟨.post, (Option.some.inj htoken).symm⟩

/-- A request with a method and a path that nobody has entered. -/
theorem not_keepsTables :
    ¬ KeepsTables [⟨bytes "/", none, some ()⟩] .v11 (oneClient.served
      [⟨bytes "/", none, some ()⟩] .v11
      [⟨3, bytes "FOO /a HTTP/1.1\r\n\r\n",
        smoothly [] fun _ _ response => (response, .ok ())⟩]) := by
  intro h
  have hmem := (h.paths (bytes "/a")).1 (by decide)
  exact absurd hmem (by decide)

end ServerState

end WebServer
