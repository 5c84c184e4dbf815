import WebServer.Http.ResponseReader
import WebServer.Server.ChannelWrite
import WebServer.Server.Transcript

/-!
# From the event loop to the client

The responses that a run writes to a connection follow one another in one stream of bytes:
each is rendered, cut to the 16 bits of its size, and offered once to a transport that
takes what it has room for.  At the other end the client cuts the stream into messages, in
whatever chunks it arrives.

* `accepted_send` — the stream.
* `reads_all_iff` — the client reads the responses exactly if none of them was cut.
* `reads_what_arrived` — how far the client is while the stream arrives.
-/

namespace WebServer

open ServerState

variable {H : Type}

/-- The response, and its buffer, that an action writes to the connection `ctx`. -/
def Action.answerTo (ctx : Addr) : Action H → Option (HttpResponse × Buffer)
  | .wrote c response buffer => if c = ctx then some (response, buffer) else none
  | _ => none

/-- The responses, and their buffers, that are written to the connection `ctx`. -/
def answersTo (ctx : Addr) (log : List (Action H)) : List (HttpResponse × Buffer) :=
  log.filterMap (Action.answerTo ctx)

/-! ## What is written is what was rendered -/

/-- The buffer that is written is the one of the response. -/
def Action.Rendered : Action H → Prop
  | .wrote _ response buffer => buffer = bufferFromResponse response
  | _ => True

theorem rendered_shownDisposal (ctx : Addr) (a : DisposalAnswer) :
    ∀ action ∈ shownDisposal (H := H) ctx a, action.Rendered := by
  unfold shownDisposal
  by_cases hw : a.waited = .returned
  · rw [if_pos hw]
    exact List.forall_mem_singleton.2 trivial
  · rw [if_neg hw]
    exact List.forall_mem_nil _

theorem rendered_shownRequest (handler : HttpHandler H) (ctx : Addr) (request : HttpRequest)
    (a : MessageAnswer H) :
    ∀ action ∈ shownRequest handler ctx request a, action.Rendered := by
  refine List.forall_mem_append.2 ⟨List.forall_mem_cons.2 ⟨trivial, ?_⟩, ?_⟩
  · cases handler with
    | none => exact List.forall_mem_nil _
    | some f => exact List.forall_mem_singleton.2 trivial
  · rcases serve a.behave handler request (freshResponse request) with ⟨response, - | -⟩
    · exact List.forall_mem_nil _
    · refine List.forall_mem_cons.2 ⟨rfl, ?_⟩
      by_cases hcloses : Closes request ∧ a.sent ≠ .sigpipe
      · rw [if_pos hcloses]
        exact rendered_shownDisposal ctx a.disposal
      · rw [if_neg hcloses]
        exact List.forall_mem_nil _

theorem rendered_shownMessage (r : HttpRouter H) (ctx : Addr) (a : MessageAnswer H) :
    ∀ action ∈ shownMessage r ctx a, action.Rendered := by
  unfold shownMessage
  cases a.read with
  | error f => exact List.forall_mem_nil _
  | ok message =>
    by_cases hne : message = []
    · simp only [if_pos hne]
      exact List.forall_mem_nil _
    · simp only [if_neg hne]
      cases HttpParser.parse message with
      | error f => exact List.forall_mem_nil _
      | ok request => exact rendered_shownRequest _ ctx request a

theorem rendered_shown (r : HttpRouter H) (serverSocket : SocketHandle) (e : FiredEvent H) :
    ∀ action ∈ shown r serverSocket e, action.Rendered := by
  unfold shown shownTo
  cases (digestEvent serverSocket e.event).context with
  | none => exact List.forall_mem_nil _
  | some ctx =>
    cases (digestEvent serverSocket e.event).type with
    | read => exact rendered_shownMessage r ctx e.message
    | write => exact List.forall_mem_nil _
    | disconnect => exact rendered_shownDisposal ctx e.message.disposal
    | weird => exact List.forall_mem_nil _

/-- In every run. -/
theorem buffer_of_mem_answersTo {boot : Boot H} {guard : ServerState H → FiredEvent H → Prop}
    {es : List (FiredEvent H)} {c : EventLoop.Config (ServerState H) (FiredEvent H) Fault}
    (h : EventLoop.Trace (handleConnections H) guard boot.state es c)
    {earlier log later : List (Action H)} (hlog : c.state.log = earlier ++ log ++ later)
    (ctx : Addr) : ∀ p ∈ answersTo ctx log, p.2 = bufferFromResponse p.1 := by
  intro p hp
  obtain ⟨action, hmem, hanswer⟩ := List.mem_filterMap.1 hp
  have hrun : c.state.log = es.flatMap (shown boot.router boot.serverSocket) :=
    (shows_trace h).1.log
  have hshown : action ∈ es.flatMap (shown boot.router boot.serverSocket) := by
    rw [← hrun, hlog]
    exact List.mem_append_left _ (List.mem_append_right _ hmem)
  obtain ⟨e, -, he⟩ := List.mem_flatMap.1 hshown
  have hrendered := rendered_shown _ _ e action he
  cases action with
  | wrote c' response buffer =>
    rw [Action.answerTo] at hanswer
    split at hanswer
    · obtain rfl := Option.some.inj hanswer
      exact hrendered
    · cases hanswer
  | _ => cases hanswer

/-! ## What is answered -/

/-- The request that a message brings. -/
def MessageAnswer.request? (a : MessageAnswer H) : Option HttpRequest :=
  match a.read with
  | .error _ => none
  | .ok message =>
    if message = [] then none
    else
      match HttpParser.parse message with
      | .error _ => none
      | .ok request => some request

theorem MessageAnswer.request?_of_ok {a : MessageAnswer H} {message : ByteString}
    {request : HttpRequest} (hread : a.read = .ok message) (hne : message ≠ [])
    (hparse : HttpParser.parse message = .ok request) : a.request? = some request := by
  rw [MessageAnswer.request?, hread]
  simp only [if_neg hne, hparse]

/-- The request that an event of a connection brings, and what a handler does with it. -/
def brought (x : EventType × MessageAnswer H) : Option (HttpRequest × Behaviour H) :=
  match x.1 with
  | .read => x.2.request?.map fun request => (request, x.2.behave)
  | _ => none

/-- The response to a request, unless its handler ends with an exception that is not caught. -/
def responseTo (r : HttpRouter H) (p : HttpRequest × Behaviour H) : Option HttpResponse :=
  match serve p.2 (r.getHandler p.1.path p.1.method).2 p.1 (freshResponse p.1) with
  | (_, .error _) => none
  | (response, .ok ()) => some response

/-- The response with its buffer. -/
def withBuffer (response : HttpResponse) : HttpResponse × Buffer :=
  (response, bufferFromResponse response)

theorem answersTo_append (ctx : Addr) (log log' : List (Action H)) :
    answersTo ctx (log ++ log') = answersTo ctx log ++ answersTo ctx log' := List.filterMap_append

theorem answersTo_cons (ctx : Addr) (action : Action H) (log : List (Action H)) :
    answersTo ctx (action :: log) = (action.answerTo ctx).toList ++ answersTo ctx log := by
  rw [answersTo, List.filterMap_cons]
  cases action.answerTo ctx <;> rfl

theorem answersTo_shownDisposal (ctx c : Addr) (a : DisposalAnswer) :
    answersTo ctx (shownDisposal (H := H) c a) = [] := by
  unfold shownDisposal
  split_ifs <;> rfl

theorem answersTo_shownRequest (r : HttpRouter H) (ctx c : Addr) (request : HttpRequest)
    (a : MessageAnswer H) :
    answersTo ctx (shownRequest (r.getHandler request.path request.method).2 c request a) =
      if c = ctx then ((responseTo r (request, a.behave)).map withBuffer).toList else [] := by
  have hcall : ∀ handler : HttpHandler H, answersTo ctx (handlerCall handler request) = [] := by
    intro handler
    cases handler <;> rfl
  have hend : answersTo ctx (if Closes request ∧ a.sent ≠ .sigpipe then
      shownDisposal (H := H) c a.disposal else []) = [] := by
    rw [apply_ite (answersTo ctx), answersTo_shownDisposal]
    exact ite_self _
  rw [shownRequest, List.cons_append, answersTo_cons, answersTo_append, hcall, responseTo]
  rcases serve a.behave (r.getHandler request.path request.method).2 request
    (freshResponse request) with ⟨response, ex | ⟨⟩⟩
  · exact (ite_self _).symm
  · simp only [answersTo_cons, hend, Action.answerTo]
    split_ifs <;> rfl

theorem answersTo_shownTo (r : HttpRouter H) (ctx c : Addr) (x : EventType × MessageAnswer H) :
    answersTo ctx (shownTo r c x) =
      if c = ctx then (((brought x).bind (responseTo r)).map withBuffer).toList else [] := by
  obtain ⟨type, a⟩ := x
  cases type with
  | read =>
    simp only [shownTo, shownMessage, brought, MessageAnswer.request?]
    cases a.read with
    | error f => exact (ite_self _).symm
    | ok message =>
      simp only
      by_cases hne : message = []
      · simp only [if_pos hne]
        exact (ite_self _).symm
      · simp only [if_neg hne]
        cases HttpParser.parse message with
        | error f => exact (ite_self _).symm
        | ok request => exact answersTo_shownRequest r ctx c request a
  | write => exact (ite_self _).symm
  | disconnect =>
    simp only [shownTo, answersTo_shownDisposal]
    exact (ite_self _).symm
  | weird => exact (ite_self _).symm

theorem answersTo_flatMap (r : HttpRouter H) (serverSocket : SocketHandle) (ctx : Addr)
    (es : List (FiredEvent H)) :
    answersTo ctx (es.flatMap (shown r serverSocket)) =
      (((received serverSocket ctx es).filterMap brought).filterMap (responseTo r)).map
        withBuffer := by
  rw [List.filterMap_filterMap, List.map_filterMap]
  induction es with
  | nil => rfl
  | cons e es ih =>
    rw [List.flatMap_cons, answersTo_append, ih, received_cons, List.filterMap_append, shown]
    congr 1
    cases (digestEvent serverSocket e.event).context with
    | none => rfl
    | some c =>
      simp only [Option.some.injEq]
      rw [answersTo_shownTo r ctx c]
      by_cases hc : c = ctx
      · rw [if_pos hc, if_pos hc, List.filterMap_cons, List.filterMap_nil]
        cases ((brought _).bind _).map withBuffer <;> rfl
      · rw [if_neg hc, if_neg hc]
        rfl

/-- **The responses that a run writes** to a connection from some moment on are those to the
requests that it brings from then on, in order. -/
theorem answersTo_trace {boot : Boot H} {guard : ServerState H → FiredEvent H → Prop}
    {earlier es : List (FiredEvent H)}
    {c₀ c : EventLoop.Config (ServerState H) (FiredEvent H) Fault}
    (h₀ : EventLoop.Trace (handleConnections H) guard boot.state earlier c₀)
    (h : EventLoop.Trace (handleConnections H) guard boot.state (earlier ++ es) c)
    {log : List (Action H)} (hlog : c.state.log = c₀.state.log ++ log) (ctx : Addr) :
    answersTo ctx log =
      (((received boot.serverSocket ctx es).filterMap brought).filterMap
        (responseTo boot.router)).map withBuffer := by
  have hbefore : c₀.state.log = earlier.flatMap (shown boot.router boot.serverSocket) :=
    (shows_trace h₀).1.log
  have hafter : c.state.log = (earlier ++ es).flatMap (shown boot.router boot.serverSocket) :=
    (shows_trace h).1.log
  rw [hlog, List.flatMap_append, hbefore] at hafter
  rw [List.append_cancel_left hafter, answersTo_flatMap]

/-! ## The stream -/

namespace Outgoing

/-- The buffers are written one after another; `fresh k` is what `new` returns for the one
of the `k`-th call. -/
def send (room : ℕ → ℕ) (channel : Channel) (fresh : ℕ → Addr) (s : Outgoing)
    (buffers : List Buffer) : Outgoing :=
  buffers.foldl (fun s buffer =>
    ((s.allocate (fresh s.calls) buffer).write room channel (fresh s.calls)).1) s

/-- What the transport takes of a buffer at its `k`-th call. -/
def taken (room : ℕ → ℕ) (p : Buffer × ℕ) : ByteString := (offered p.1).take (room p.2)

theorem accepted_send (room : ℕ → ℕ) (channel : Channel) (fresh : ℕ → Addr) (s : Outgoing)
    (buffers : List Buffer) :
    (s.send room channel fresh buffers).accepted =
      s.accepted ++ (buffers.zipIdx s.calls).flatMap (taken room) := by
  induction buffers generalizing s with
  | nil => exact (List.append_nil _).symm
  | cons buffer buffers ih =>
    rw [send, List.foldl_cons, ← send, ih, write_eq, List.zipIdx_cons, List.flatMap_cons,
      List.append_assoc]
    rfl

end Outgoing

open HttpResponse (reader reading Reading)

/-- What a transport with some room takes of the response it is offered at its `k`-th call. -/
def cutText (room : ℕ → ℕ) (k : ℕ) (response : HttpResponse) : ByteString :=
  (offered (bufferFromResponse response)).take (room k)

/-- The response is neither cut to the 16 bits of its size nor by the transport. -/
def Whole (room : ℕ → ℕ) (k : ℕ) (response : HttpResponse) : Prop :=
  (responseText response).length < 65536 ∧ (responseText response).length ≤ room k

theorem cutText_isPrefix (room : ℕ → ℕ) (k : ℕ) (response : HttpResponse) :
    cutText room k response <+: responseText response :=
  (List.take_prefix ..).trans (List.take_prefix ..)

theorem cutText_eq_iff {room : ℕ → ℕ} {k : ℕ} {response : HttpResponse} :
    cutText room k response = responseText response ↔ Whole room k response := by
  have hlength : (cutText room k response).length =
      min (room k) ((responseText response).length % 65536) := by
    have hsize : (bufferFromResponse response).size.toNat =
        (responseText response).length % 65536 := UInt16.toNat_ofNat'
    rw [cutText, List.length_take, Outgoing.length_offered_bufferFromResponse, hsize]
  constructor
  · intro h
    rw [h] at hlength
    constructor
    · omega
    · omega
  · rintro ⟨hsize, hroom⟩
    exact (cutText_isPrefix room k response).eq_of_length (by rw [hlength]; omega)

/-- The stream of a run, in terms of its responses. -/
theorem accepted_answersTo {answers : List (HttpResponse × Buffer)}
    (hbuffer : ∀ p ∈ answers, p.2 = bufferFromResponse p.1) (room : ℕ → ℕ) (channel : Channel)
    (fresh : ℕ → Addr) :
    (Outgoing.send room channel fresh ⟨[], 0, ∅⟩ (answers.map Prod.snd)).accepted =
      (answers.map Prod.fst).zipIdx.flatMap fun p => cutText room p.2 p.1 := by
  have hbuffers : answers.map Prod.snd = (answers.map Prod.fst).map bufferFromResponse := by
    rw [List.map_map]
    exact List.map_congr_left hbuffer
  rw [Outgoing.accepted_send, List.nil_append, hbuffers, List.zipIdx_map, List.flatMap_map]
  rfl

/-- The client reads some responses exactly if none of them was cut. -/
theorem messages_eq_iff {answers : List (HttpResponse × Buffer)}
    (hbuffer : ∀ p ∈ answers, p.2 = bufferFromResponse p.1) (room : ℕ → ℕ) (channel : Channel)
    (fresh : ℕ → Addr) {chunks : List ByteString}
    (hchunks : chunks.flatten =
      (Outgoing.send room channel fresh ⟨[], 0, ∅⟩ (answers.map Prod.snd)).accepted) :
    (reader.receive chunks).messages = answers.map (reading ∘ Prod.fst) ↔
      ∀ k response, (answers.map Prod.fst)[k]? = some response → Whole room k response := by
  rw [accepted_answersTo hbuffer] at hchunks
  rw [reader.receive_eq, hchunks, ← List.map_map]
  let ps : List (HttpResponse × ByteString) := (answers.map Prod.fst).zipIdx.map
    fun p => (p.1, cutText room p.2 p.1)
  have hcut : ∀ p ∈ ps, p.2 <+: responseText p.1 :=
    List.forall_mem_map.2 fun p _ => cutText_isPrefix room p.2 p.1
  have hall := Framing.Reader.drain_eq_iff HttpResponse.frames_responseText
    HttpResponse.size_of_readReading hcut
  have hstream : ps.flatMap Prod.snd = (answers.map Prod.fst).zipIdx.flatMap
      fun p => cutText room p.2 p.1 := List.flatMap_map ..
  have hresponses : ps.map Prod.fst = answers.map Prod.fst :=
    (List.map_map ..).trans (List.zipIdx_map_fst 0 _)
  have hmessages : ps.map (reading ∘ Prod.fst) =
      (answers.map Prod.fst).map reading := by
    rw [← List.map_map, hresponses]
  rw [hstream, hmessages] at hall
  rw [hall, List.forall_mem_map]
  constructor
  · intro hwhole k response hk
    exact cutText_eq_iff.1 (hwhole (response, k) (List.mk_mem_zipIdx_iff_getElem?.2 hk))
  · rintro hwhole ⟨response, k⟩ hp
    exact cutText_eq_iff.2 (hwhole k response (List.mk_mem_zipIdx_iff_getElem?.1 hp))

/-- The response of a visit is short. -/
theorem whole_visit : ∀ k response,
    ((answersTo 3 (visited .normal).log).map Prod.fst)[k]? = some response →
      Whole (fun _ => 65536) k response := by
  intro k response hk
  have hsmall : ∀ response ∈ (answersTo 3 (visited .normal).log).map Prod.fst,
      (responseText response).length < 65536 := by decide +kernel
  have hlength := hsmall response (List.mem_of_getElem? hk)
  exact ⟨hlength, hlength.le⟩

/-- **The client reads the responses exactly if none of them was cut.**  In every run, of
every stretch of its log and on every connection, however the bytes are chunked that a
transport with some room has taken. -/
theorem reads_all_iff {boot : Boot H} {guard : ServerState H → FiredEvent H → Prop}
    {es : List (FiredEvent H)} {c : EventLoop.Config (ServerState H) (FiredEvent H) Fault}
    (h : EventLoop.Trace (handleConnections H) guard boot.state es c)
    {earlier log later : List (Action H)} (hlog : c.state.log = earlier ++ log ++ later)
    (ctx : Addr) (room : ℕ → ℕ) (channel : Channel) (fresh : ℕ → Addr)
    {chunks : List ByteString}
    (hchunks : chunks.flatten = (Outgoing.send room channel fresh ⟨[], 0, ∅⟩
      ((answersTo ctx log).map Prod.snd)).accepted) :
    (reader.receive chunks).messages = (answersTo ctx log).map (reading ∘ Prod.fst) ↔
      ∀ k response, ((answersTo ctx log).map Prod.fst)[k]? = some response →
        Whole room k response :=
  messages_eq_iff (buffer_of_mem_answersTo h hlog ctx) room channel fresh hchunks

/-- The stream of a visit that arrives byte by byte. -/
theorem reads_all_iff_visit :
    (reader.receive ((Outgoing.send (fun _ => 65536) .normal (fun _ => 9) ⟨[], 0, ∅⟩
        ((answersTo 3 (visited .normal).log).map Prod.snd)).accepted.map fun b => [b])).messages =
      (answersTo 3 (visited .normal).log).map (reading ∘ Prod.fst) := by
  have hlog : (visited .normal).log = [] ++ (visited .normal).log ++ [] :=
    (List.append_nil _).symm
  exact (reads_all_iff (trace_visit .normal) hlog 3 (fun _ => 65536) .normal (fun _ => 9)
    (List.flatMap_singleton' _)).2 whole_visit

/-- **How far the client is while the stream arrives.**  As long as nothing is cut, it has
read the responses of which all bytes have arrived, in order, and what it holds back is the
beginning of the next one. -/
theorem reads_what_arrived {boot : Boot H} {guard : ServerState H → FiredEvent H → Prop}
    {es : List (FiredEvent H)} {c : EventLoop.Config (ServerState H) (FiredEvent H) Fault}
    (h : EventLoop.Trace (handleConnections H) guard boot.state es c)
    {earlier log later : List (Action H)} (hlog : c.state.log = earlier ++ log ++ later)
    (ctx : Addr) {room : ℕ → ℕ} (channel : Channel) (fresh : ℕ → Addr)
    (hwhole : ∀ k response, ((answersTo ctx log).map Prod.fst)[k]? = some response →
      Whole room k response)
    {chunks : List ByteString}
    (hchunks : chunks.flatten <+: (Outgoing.send room channel fresh ⟨[], 0, ∅⟩
      ((answersTo ctx log).map Prod.snd)).accepted) :
    ∃ k ≤ (answersTo ctx log).length,
      (reader.receive chunks).messages = ((answersTo ctx log).take k).map (reading ∘ Prod.fst) ∧
      chunks.flatten = ((answersTo ctx log).take k).flatMap (responseText ∘ Prod.fst) ++
        (reader.receive chunks).rest ∧
      ∀ p, (answersTo ctx log)[k]? = some p →
        (reader.receive chunks).rest <+: responseText p.1 ∧
          (reader.receive chunks).rest ≠ responseText p.1 := by
  have hstream : (((answersTo ctx log).map Prod.fst).zipIdx.flatMap
      fun p => cutText room p.2 p.1) =
        (answersTo ctx log).flatMap (responseText ∘ Prod.fst) := by
    have htexts : ∀ p ∈ ((answersTo ctx log).map Prod.fst).zipIdx,
        cutText room p.2 p.1 = (responseText ∘ Prod.fst) p := fun p hp =>
      cutText_eq_iff.2 (hwhole p.2 p.1 (List.mk_mem_zipIdx_iff_getElem?.1 hp))
    calc (((answersTo ctx log).map Prod.fst).zipIdx.flatMap fun p => cutText room p.2 p.1)
        = ((answersTo ctx log).map Prod.fst).zipIdx.flatMap (responseText ∘ Prod.fst) :=
          List.flatMap_congr htexts
      _ = (((answersTo ctx log).map Prod.fst).zipIdx.map Prod.fst).flatMap responseText := by
          rw [List.flatMap_map]
          rfl
      _ = (answersTo ctx log).flatMap (responseText ∘ Prod.fst) := by
          rw [List.zipIdx_map_fst, List.flatMap_map]
          rfl
  rw [accepted_answersTo (buffer_of_mem_answersTo h hlog ctx), hstream] at hchunks
  rw [reader.receive_eq]
  exact Framing.Reader.drain_of_isPrefix
    (fun p : HttpResponse × Buffer => HttpResponse.frames_responseText p.1) _ hchunks

/-- Twenty bytes of a visit. -/
theorem reads_what_arrived_visit : ∃ k ≤ (answersTo 3 (visited .normal).log).length,
    (reader.receive [(Outgoing.send (fun _ => 65536) .normal (fun _ => 9) ⟨[], 0, ∅⟩
        ((answersTo 3 (visited .normal).log).map Prod.snd)).accepted.take 20]).messages =
      ((answersTo 3 (visited .normal).log).take k).map (reading ∘ Prod.fst) := by
  have hlog : (visited .normal).log = [] ++ (visited .normal).log ++ [] :=
    (List.append_nil _).symm
  have harrived : [(Outgoing.send (fun _ => 65536) .normal (fun _ => 9) ⟨[], 0, ∅⟩
      ((answersTo 3 (visited .normal).log).map Prod.snd)).accepted.take 20].flatten <+:
        (Outgoing.send (fun _ => 65536) .normal (fun _ => 9) ⟨[], 0, ∅⟩
          ((answersTo 3 (visited .normal).log).map Prod.snd)).accepted := by
    rw [List.flatten_singleton]
    exact List.take_prefix ..
  obtain ⟨k, hk, hread, -⟩ :=
    reads_what_arrived (trace_visit .normal) hlog 3 .normal (fun _ => 9) whole_visit harrived
  exact ⟨k, hk, hread⟩

end WebServer
