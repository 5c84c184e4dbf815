import WebServer.Server.Tables

/-!
# Which words are methods

The parser takes a word that is not in its table for the default of the table's values, which is
`GET`, so that such a message gets to the handler of `GET`.

* `HttpParser.recognisesMethod_iff` — when a request has the method that its message names.
* `ServerState.handled_step_iff` — which handler a message gets to.
* `ServerState.soundMethods_iff` — when no handler is called for a word that is not a method.
-/

namespace WebServer

namespace HttpParser

/-- The request that is returned has the method whose name the first word is. -/
def RecognisesMethod (p : HttpParser) (buffer : ByteString) : Prop :=
  ∀ r, (p.requestFromBuffer buffer).2 = .ok r → methodToken buffer = some (methodName r.method)

/-- It has when the first word is the name of some method. -/
theorem recognisesMethod_iff {p : HttpParser} (hp : p.Reachable) (buffer : ByteString) :
    p.RecognisesMethod buffer ↔
      (Parses buffer → ∃ m, methodToken buffer = some (methodName m)) := by
  unfold RecognisesMethod
  rw [hp.requestFromBuffer_snd, ← parse_ok_iff, forall_exists_index]
  refine forall₂_congr fun r hr => ⟨fun h => ⟨r.method, h⟩, ?_⟩
  rintro ⟨m, hm⟩
  obtain ⟨-, token, htoken, hmethod⟩ := parse_words hr
  rw [hm, Option.some.injEq] at htoken
  rw [hmethod, ← htoken, methodOf_methodName, hm]

/-- A request whose message does not name a method is a `GET`. -/
theorem method_of_unknown {buffer : ByteString} {r : HttpRequest} (hr : parse buffer = .ok r)
    (hunknown : ∀ m, methodToken buffer ≠ some (methodName m)) : r.method = .get := by
  obtain ⟨-, token, htoken, hmethod⟩ := parse_words hr
  have hnone : allMethods.find? (methodName · = token) = none := by
    rw [List.find?_eq_none]
    intro m _ hm
    rw [decide_eq_true_eq] at hm
    exact hunknown m (by rw [htoken, hm])
  rw [hmethod, methodOf, hnone]
  rfl

end HttpParser

namespace ServerState

variable {H : Type}

/-- What a message has added to the log. -/
def newActions (s : ServerState H) (message : Message H) : List (Action H) :=
  (s.step message).1.log.drop s.log.length

theorem handled_mem_handlerCall {handler : HttpHandler H} {h : H} {r request : HttpRequest} :
    Action.handled h r ∈ handlerCall handler request ↔ handler = some h ∧ r = request := by
  cases handler with
  | none =>
    refine iff_of_false List.not_mem_nil fun hh => ?_
    cases hh.1
  | some h' =>
    show Action.handled h r ∈ [Action.handled h' request] ↔ _
    rw [List.mem_singleton, Action.handled.injEq, Option.some.injEq, eq_comm (a := h)]

/-- What `respond` adds to the log: the request, the call of its handler, and then things other
than calls. -/
theorem log_respond (s : ServerState H) (ctx : Addr) (request : HttpRequest)
    (a : MessageAnswer H) :
    ∃ rest, (s.respond ctx request a).1.log = s.log ++
        (Action.parsed ctx request :: handlerCall (s.selected request) request ++ rest) ∧
      ∀ h r, Action.handled h r ∉ rest := by
  rcases respond_cases s ctx request a with
    ⟨-, ex, heq⟩ | ⟨-, -, heq⟩ | ⟨-, -, -, heq⟩ | ⟨-, -, -, heq⟩
  · rw [heq]
    refine ⟨[], ?_, fun h r => List.not_mem_nil⟩
    rw [List.append_nil]
    rfl
  · rw [heq, log_answered]
    exact ⟨_, rfl, fun h r => by simp⟩
  · rw [heq, (handleDisconnectionEvent_frame ..).1, log_answered, List.append_assoc,
      List.append_assoc, shownDisposal]
    refine ⟨_, rfl, fun h r => ?_⟩
    split_ifs <;> simp
  · rw [heq, log_answered]
    exact ⟨_, rfl, fun h r => by simp⟩

/-- **Which handler a message gets to**: the one that is selected for its request. -/
theorem handled_step_iff {s : ServerState H} (hp : s.parser.Reachable) {message : Message H}
    {h : H} {r : HttpRequest} :
    Action.handled h r ∈ s.newActions message ↔
      HttpParser.parse message.text = .ok r ∧ s.selected r = some h := by
  have hresult := hp.requestFromBuffer_snd message.text
  rw [newActions, step]
  cases hparse : HttpParser.parse message.text with
  | error f =>
    rw [onClientMessage_of_error (hresult.trans hparse), log_digested, List.drop_length]
    refine iff_of_false List.not_mem_nil fun hh => ?_
    cases hh.1
  | ok request =>
    obtain ⟨rest, hlog, hrest⟩ :=
      (s.digested message.text).log_respond message.ctx request message.answer
    rw [onClientMessage_of_ok (hresult.trans hparse), hlog, log_digested, List.drop_left,
      List.cons_append, List.mem_cons, List.mem_append, handled_mem_handlerCall,
      Except.ok.injEq, selected_digested]
    constructor
    · rintro (hh | ⟨hsel, rfl⟩ | hh)
      · cases hh
      · exact ⟨rfl, hsel⟩
      · exact absurd hh (hrest h r)
    · rintro ⟨rfl, hsel⟩
      exact Or.inr (Or.inl ⟨hsel, rfl⟩)

/-- No handler is called but for the method that the first word of the message names. -/
def CallsByName (s : ServerState H) (message : Message H) : Prop :=
  ∀ h r, Action.handled h r ∈ s.newActions message →
    methodToken message.text = some (methodName r.method)

/-- The server, with a parser that has parsed some buffers. -/
def withHistory (s : ServerState H) (protocol : HttpProtocol) (history : List ByteString) :
    ServerState H :=
  { s with parser := (HttpParser.new protocol).parseAll history }

/-- A message that does not name a method must not get to the handler of `GET`. -/
theorem callsByName_iff {s : ServerState H} (hp : s.parser.Reachable) (message : Message H) :
    s.CallsByName message ↔ (Parses message.text →
      (∃ m, methodToken message.text = some (methodName m)) ∨
        ∀ path, pathToken message.text = some path → (s.router.getHandler path .get).2 = none) := by
  unfold CallsByName
  simp only [handled_step_iff hp, and_imp]
  rw [← HttpParser.parse_ok_iff, forall_exists_index, forall_comm]
  refine forall_congr' fun r => ?_
  rw [forall_comm]
  refine forall_congr' fun hr => ?_
  obtain ⟨hpath, token, htoken, hmethod⟩ := parse_words hr
  rw [hpath]
  simp only [Option.some.injEq, forall_eq']
  by_cases hknown : ∃ m, methodToken message.text = some (methodName m)
  · obtain ⟨m, hm⟩ := hknown
    rw [hm, Option.some.injEq] at htoken
    refine iff_of_true (fun h _ => ?_) (Or.inl ⟨m, hm⟩)
    rw [hmethod, ← htoken, methodOf_methodName, hm]
  · have hget := HttpParser.method_of_unknown hr (not_exists.1 hknown)
    rw [or_iff_right hknown, Option.eq_none_iff_forall_ne_some, ← hget]
    exact forall_congr' fun h => ⟨fun hcall hsel => hknown ⟨_, hcall hsel⟩,
      fun hno hsel => (hno hsel).elim⟩

/-- **When methods are recognised soundly**, whatever was parsed before: the first word of a
message that parses must be the name of a method.  If it is not, no handler is called exactly when
the path has none for `GET`. -/
theorem soundMethods_iff (s : ServerState H) (protocol : HttpProtocol)
    (history : List ByteString) (message : Message H) :
    ((((HttpParser.new protocol).parseAll history).RecognisesMethod message.text ∧
          (s.withHistory protocol history).CallsByName message) ↔
        (Parses message.text → ∃ m, methodToken message.text = some (methodName m))) ∧
      ((s.withHistory protocol history).CallsByName message ↔ (Parses message.text →
        (∃ m, methodToken message.text = some (methodName m)) ∨
          ∀ path, pathToken message.text = some path →
            (s.router.getHandler path .get).2 = none)) := by
  have hp := HttpParser.reachable_parseAll (.new protocol) history
  have hcalls := @callsByName_iff H (s.withHistory protocol history) hp message
  refine ⟨?_, hcalls⟩
  rw [HttpParser.recognisesMethod_iff hp, hcalls]
  exact and_iff_left_of_imp fun h hparses => Or.inl (h hparses)

/-- A lower-case `post` is a `GET`, and gets to its handler. -/
theorem not_soundMethods :
    ¬ (HttpParser.new .v11).RecognisesMethod (bytes "post / HTTP/1.1\r\n\r\n") ∧
      ¬ ((Boot.plain .normal).state.withRoutes [⟨bytes "/", none, some ()⟩] .v11).CallsByName
        ⟨1, bytes "post / HTTP/1.1\r\n\r\n",
          smoothly [] fun _ _ response => (response, .ok ())⟩ := by
  have htoken : methodToken (bytes "post / HTTP/1.1\r\n\r\n") = some (bytes "post") := by decide
  have hunknown : ¬ ∃ m, methodToken (bytes "post / HTTP/1.1\r\n\r\n") = some (methodName m) := by
    rintro ⟨m, hm⟩
    rw [htoken, Option.some.injEq] at hm
    cases m <;> exact absurd hm (by decide)
  have hparses : Parses (bytes "post / HTTP/1.1\r\n\r\n") :=
    ⟨bytes "post / HTTP/1.1", [], bytes "post", bytes "/", [bytes "HTTP/1.1"], by decide,
      by decide, by decide, by decide⟩
  constructor
  · rw [HttpParser.recognisesMethod_iff (.new .v11)]
    exact fun h => hunknown (h hparses)
  · rw [callsByName_iff (.new .v11)]
    intro h
    have hnone := (h hparses).resolve_left hunknown (bytes "/") (by decide)
    exact absurd hnone (by decide)

end ServerState

end WebServer
