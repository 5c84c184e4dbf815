import WebServer.Server.Resilience

/-!
# Closing the server down

`HttpServer::Terminate` walks the descriptors downwards from the one of the client
that was accepted last, and disconnects whoever it finds in the table of connections.
The kernel reuses descriptors, so the last client need not have the greatest one.

* `terminateFrom_sweeps` — the walk from `n` gets to its end when the calls of the disposals
  return, and then it has ended the sessions up to `n` above the server's own descriptor, each
  once, and no other.
* `closesEveryone_iff` — nobody is left exactly when nobody has a greater descriptor
  than the client that was accepted last, and the calls of the disposals return.
-/

namespace WebServer

open Sessions

namespace ServerState

variable {H : Type}

/-! ## The walk -/

/-- The loop of `Terminate`; `index` is unsigned, and so is the comparison.  The answers are
those that the disposals meet, by index. -/
def terminateFrom (s : ServerState H) (answers : ℕ → DisposalAnswer) :
    ℕ → ServerState H × Except Fault Unit
  | 0 => (s, .ok ())
  | index + 1 =>
    if s.serverSocket.toUInt32.toNat < index + 1 then
      match s.connections.find (UInt32.ofNat (index + 1)) with
      | some currentConnection =>
        match s.handleDisconnectionEvent currentConnection (answers (index + 1)) with
        | (s, .error f) => (s, .error f)
        | (s, .ok ()) => terminateFrom s answers index
      | none => terminateFrom s answers index
    else (s, .ok ())

/-- `HttpServer::Terminate`, which makes no use of its arguments. -/
def terminate (s : ServerState H) (answers : ℕ → DisposalAnswer) :
    ServerState H × Except Fault Unit :=
  match s.lastConnection with
  | none => (s, .error .nullPointer)
  | some ctx => s.terminateFrom answers (s.contexts ctx).socket.handle.toUInt32.toNat

/-- The descriptor is one the walk from `n` comes by. -/
def InWalk (serverSocket : SocketHandle) (n : ℕ) (h : SocketHandle) : Prop :=
  serverSocket.toUInt32.toNat < h.toUInt32.toNat ∧ h.toUInt32.toNat ≤ n

instance (serverSocket : SocketHandle) (n : ℕ) (h : SocketHandle) :
    Decidable (InWalk serverSocket n h) :=
  inferInstanceAs (Decidable (_ ∧ _))

/-- The state `s'` is `s`, of the book `b`, after the sessions in the walk from `n` have
been ended. -/
structure Sweeps (s : ServerState H) (b : Book SocketHandle Addr) (n : ℕ)
    (s' : ServerState H) : Prop where
  represents : ∃ b', Represents s' b' ∧ b'.lost = [] ∧
    ∀ h, b'.live h = if InWalk s.serverSocket n h then none else b.live h
  disposed : ∃ ds : List Addr, s'.log = s.log ++ ds.map Action.disposed ∧ ds.Nodup ∧
    ∀ ctx, ctx ∈ ds ↔ ∃ h, InWalk s.serverSocket n h ∧ b.live h = some ctx

theorem toNat_toUInt32_inj {h h' : SocketHandle} :
    h.toUInt32.toNat = h'.toUInt32.toNat ↔ h = h' := by
  rw [UInt32.toNat_inj, toUInt32_inj]

/-- A walk that ends at once. -/
theorem sweeps_of_le {s : ServerState H} {b : Book SocketHandle Addr} (hr : Represents s b)
    (hlost : b.lost = []) {n : ℕ} (hn : n ≤ s.serverSocket.toUInt32.toNat) : Sweeps s b n s where
  represents := by
    refine ⟨b, hr, hlost, fun h => ?_⟩
    rw [if_neg]
    rintro ⟨hlo, hhi⟩
    omega
  disposed := by
    refine ⟨[], by simp, List.nodup_nil, fun ctx => ⟨fun h => absurd h List.not_mem_nil, ?_⟩⟩
    rintro ⟨h, ⟨hlo, hhi⟩, -⟩
    omega

/-- The descriptors of a walk are the first one and those of the rest. -/
theorem inWalk_succ {serverSocket h₀ : SocketHandle} {n : ℕ} (hn : h₀.toUInt32.toNat = n + 1)
    (hserver : serverSocket.toUInt32.toNat < n + 1) (h : SocketHandle) :
    InWalk serverSocket (n + 1) h ↔ h = h₀ ∨ InWalk serverSocket n h := by
  rw [← toNat_toUInt32_inj, hn, InWalk, InWalk]
  omega

/-- Nobody has the first descriptor of the walk. -/
theorem Sweeps.skip {s s' : ServerState H} {b : Book SocketHandle Addr} {n : ℕ}
    (h : Sweeps s b n s') {h₀ : SocketHandle} (hn : h₀.toUInt32.toNat = n + 1)
    (hserver : s.serverSocket.toUInt32.toNat < n + 1) (hnone : b.live h₀ = none) :
    Sweeps s b (n + 1) s' := by
  obtain ⟨⟨b', hr', hlost', hb'⟩, ds, hlog, hnd, hds⟩ := h
  have hwalk := inWalk_succ hn hserver
  refine ⟨⟨b', hr', hlost', fun k => ?_⟩, ds, hlog, hnd, fun ctx => ?_⟩
  · rw [hb', if_congr (hwalk k) rfl rfl]
    by_cases hk : k = h₀
    · rw [hk, hnone, ite_self, ite_self]
    · simp only [hk, false_or]
  · rw [hds]
    constructor
    · rintro ⟨k, hk, hl⟩
      exact ⟨k, (hwalk k).2 (Or.inr hk), hl⟩
    · rintro ⟨k, hk, hl⟩
      rcases (hwalk k).1 hk with rfl | hk
      · rw [hnone] at hl
        cases hl
      · exact ⟨k, hk, hl⟩

/-- Somebody has it, and is disconnected. -/
theorem Sweeps.dispose {s s' : ServerState H} {b : Book SocketHandle Addr} {n : ℕ}
    {h₀ : SocketHandle} {ctx : Addr}
    (h : Sweeps (s.disconnected ctx) (b.retire h₀) n s')
    (hn : h₀.toUInt32.toNat = n + 1) (hserver : s.serverSocket.toUInt32.toNat < n + 1)
    (hv : b.Valid) (hlive : b.live h₀ = some ctx) : Sweeps s b (n + 1) s' := by
  obtain ⟨⟨b', hr', hlost', hb'⟩, ds, hlog, hnd, hds⟩ := h
  have hwalk := inWalk_succ hn hserver
  rw [(disconnected_tables s ctx).1] at hb' hds
  refine ⟨⟨b', hr', hlost', fun k => ?_⟩, ctx :: ds, ?_, List.nodup_cons.2 ⟨?_, hnd⟩, fun c => ?_⟩
  · rw [hb', Book.live_retire, if_congr (hwalk k) rfl rfl]
    by_cases hk : k = h₀
    · simp only [hk, true_or, if_true, ite_self]
    · simp only [hk, false_or, if_false]
  · rw [hlog, log_disconnected, List.append_assoc]
    rfl
  · rw [hds]
    rintro ⟨k, -, hl⟩
    rw [Book.live_retire] at hl
    split_ifs at hl with hk
    exact hk (hv.injective k h₀ ctx hl hlive)
  · rw [List.mem_cons, hds]
    constructor
    · rintro (rfl | ⟨k, hk, hl⟩)
      · exact ⟨h₀, (hwalk h₀).2 (Or.inl rfl), hlive⟩
      · rw [Book.live_retire] at hl
        split_ifs at hl
        exact ⟨k, (hwalk k).2 (Or.inr hk), hl⟩
    · rintro ⟨k, hk, hl⟩
      by_cases hk₀ : k = h₀
      · rw [hk₀, hlive] at hl
        exact Or.inl (Option.some.inj hl).symm
      · refine Or.inr ⟨k, ((hwalk k).1 hk).resolve_left hk₀, ?_⟩
        rw [Book.live_retire, if_neg hk₀, hl]

theorem terminateFrom_of_le {s : ServerState H} {answers : ℕ → DisposalAnswer} {n : ℕ}
    (h : n ≤ s.serverSocket.toUInt32.toNat) : s.terminateFrom answers n = (s, .ok ()) := by
  cases n with
  | zero => rfl
  | succ n => rw [terminateFrom, if_neg (by omega)]

theorem terminateFrom_of_none {s : ServerState H} {answers : ℕ → DisposalAnswer} {n : ℕ}
    (hserver : s.serverSocket.toUInt32.toNat < n + 1)
    (hfind : s.connections.find (UInt32.ofNat (n + 1)) = none) :
    s.terminateFrom answers (n + 1) = s.terminateFrom answers n := by
  rw [terminateFrom, if_pos hserver, hfind]

theorem terminateFrom_of_returns {s : ServerState H} {answers : ℕ → DisposalAnswer} {n : ℕ}
    {ctx : Addr} (hserver : s.serverSocket.toUInt32.toNat < n + 1)
    (hfind : s.connections.find (UInt32.ofNat (n + 1)) = some ctx)
    (hreturns : Returns s.channel (answers (n + 1))) :
    s.terminateFrom answers (n + 1) = (s.disconnected ctx).terminateFrom answers n := by
  rw [terminateFrom, if_pos hserver, hfind]
  simp only [handleDisconnectionEvent_of_returns hreturns]

/-- A disposal that is cut short ends the walk. -/
theorem terminateFrom_of_not_returns {s : ServerState H} {answers : ℕ → DisposalAnswer} {n : ℕ}
    {ctx : Addr} (hserver : s.serverSocket.toUInt32.toNat < n + 1)
    (hfind : s.connections.find (UInt32.ofNat (n + 1)) = some ctx)
    (hreturns : ¬ Returns s.channel (answers (n + 1))) :
    (s.terminateFrom answers (n + 1)).2 ≠ .ok () := by
  obtain ⟨f, -, hf⟩ :=
    ((disposalOutcome_cases s.channel (answers (n + 1))).resolve_left fun h => hreturns h.1).2
  rw [← handleDisconnectionEvent_snd s ctx] at hf
  rw [terminateFrom, if_pos hserver, hfind]
  rcases hd : s.handleDisconnectionEvent ctx (answers (n + 1)) with ⟨s', f' | u⟩
  · simp only [hd]
    exact nofun
  · rw [hd] at hf
    cases hf

/-- The calls of all disposals return that the walk from `n` comes to. -/
def WalkReturns (s : ServerState H) (b : Book SocketHandle Addr) (answers : ℕ → DisposalAnswer)
    (n : ℕ) : Prop :=
  ∀ h ctx, InWalk s.serverSocket n h → b.live h = some ctx →
    Returns s.channel (answers h.toUInt32.toNat)

/-- Where nobody has the first descriptor, the rest of the walk decides. -/
theorem walkReturns_skip {s : ServerState H} {b : Book SocketHandle Addr}
    {answers : ℕ → DisposalAnswer} {n : ℕ} {h₀ : SocketHandle} (hn : h₀.toUInt32.toNat = n + 1)
    (hserver : s.serverSocket.toUInt32.toNat < n + 1) (hnone : b.live h₀ = none) :
    WalkReturns s b answers n ↔ WalkReturns s b answers (n + 1) := by
  have hwalk := inWalk_succ hn hserver
  constructor
  · intro hw k c hk hlive
    rcases (hwalk k).1 hk with rfl | hk
    · rw [hnone] at hlive
      cases hlive
    · exact hw k c hk hlive
  · exact fun hw k c hk => hw k c ((hwalk k).2 (Or.inr hk))

/-- And so it does where somebody has it and his disposal returns. -/
theorem walkReturns_dispose {s : ServerState H} {b : Book SocketHandle Addr}
    {answers : ℕ → DisposalAnswer} {n : ℕ} {h₀ : SocketHandle} {ctx : Addr}
    (hn : h₀.toUInt32.toNat = n + 1) (hserver : s.serverSocket.toUInt32.toNat < n + 1)
    (hreturns : Returns s.channel (answers (n + 1))) :
    WalkReturns (s.disconnected ctx) (b.retire h₀) answers n ↔
      WalkReturns s b answers (n + 1) := by
  have hwalk := inWalk_succ hn hserver
  rw [WalkReturns, (disconnected_tables s ctx).1, channel_disconnected]
  constructor
  · intro hw k c hk hlive
    by_cases hk₀ : k = h₀
    · rwa [hk₀, hn]
    · refine hw k c (((hwalk k).1 hk).resolve_left hk₀) ?_
      rw [Book.live_retire, if_neg hk₀, hlive]
  · intro hw k c hk hlive
    rw [Book.live_retire] at hlive
    split_ifs at hlive
    exact hw k c ((hwalk k).2 (Or.inr hk)) hlive

/-- **The walk ends the sessions it comes by**, each of them once, when the calls of the
disposals return, and otherwise does not get to its end. -/
theorem terminateFrom_sweeps {s : ServerState H} {b : Book SocketHandle Addr}
    (hr : Represents s b) (hv : b.Valid) (hlost : b.lost = []) (answers : ℕ → DisposalAnswer)
    {n : ℕ} (hn : n < 2 ^ 32) :
    ((s.terminateFrom answers n).2 = .ok () ↔ WalkReturns s b answers n) ∧
      (WalkReturns s b answers n → Sweeps s b n (s.terminateFrom answers n).1) := by
  induction n generalizing s b with
  | zero =>
    refine ⟨iff_of_true rfl fun h ctx hw => ?_, fun _ => sweeps_of_le hr hlost (Nat.zero_le _)⟩
    exact absurd (Nat.lt_of_lt_of_le hw.1 hw.2) (Nat.not_lt_zero _)
  | succ n ih =>
    by_cases hserver : s.serverSocket.toUInt32.toNat < n + 1
    · obtain ⟨h₀, hkey⟩ : ∃ h₀ : SocketHandle, h₀.toUInt32 = UInt32.ofNat (n + 1) :=
        ⟨Int32.ofUInt32 _, rfl⟩
      have hnat : h₀.toUInt32.toNat = n + 1 := by
        rw [hkey, UInt32.toNat_ofNat']
        omega
      have hfind := hr.find_eq hlost h₀
      rw [hkey] at hfind
      cases hlive : b.live h₀ with
      | none =>
        obtain ⟨hok, hsweeps⟩ := ih hr hv hlost (by omega)
        rw [terminateFrom_of_none hserver (hfind.trans hlive),
          ← walkReturns_skip hnat hserver hlive]
        exact ⟨hok, fun hw => (hsweeps hw).skip hnat hserver hlive⟩
      | some ctx =>
        by_cases hreturns : Returns s.channel (answers (n + 1))
        · obtain ⟨hok, hsweeps⟩ :=
            ih (hr.retire hv hlive) ((Step.retire hlive).valid hv) hlost (by omega)
          rw [terminateFrom_of_returns hserver (hfind.trans hlive) hreturns,
            ← walkReturns_dispose hnat hserver hreturns]
          exact ⟨hok, fun hw => (hsweeps hw).dispose hnat hserver hv hlive⟩
        · have hcut : ¬ WalkReturns s b answers (n + 1) := by
            intro hw
            have hat := hw h₀ ctx ((inWalk_succ hnat hserver h₀).2 (Or.inl rfl)) hlive
            rw [hnat] at hat
            exact hreturns hat
          exact ⟨iff_of_false
            (terminateFrom_of_not_returns hserver (hfind.trans hlive) hreturns) hcut,
            fun hw => absurd hw hcut⟩
    · rw [terminateFrom_of_le (Nat.le_of_not_lt hserver)]
      refine ⟨iff_of_true rfl fun h ctx hw => ?_, fun _ => sweeps_of_le hr hlost (by omega)⟩
      exact absurd (Nat.lt_of_lt_of_le hw.1 hw.2) hserver

/-! ## Runs whose clients lie above the server -/

/-- An accept succeeds, with a descriptor above the server's own, in the order in which
the loop of `Terminate` compares them. -/
def AcceptsAbove (s : ServerState H) (e : FiredEvent H) : Prop :=
  e.event.ident = s.serverSocket →
    e.accept.descriptor ≠ -1 ∧ (s.channel = .secure → e.accept.tlsResult = 0) ∧
      s.serverSocket.toUInt32 < e.accept.descriptor.toUInt32

/-- An event opens no socket but the one it accepts. -/
theorem mem_openSockets_handleEvent {s : ServerState H} {b : Book SocketHandle Addr}
    (hr : Represents s b) {e : FiredEvent H} (hl : Live s e) (ha : Admissible s e)
    (hx : Proceeds s e) {h : SocketHandle} (hh : h ∈ (s.handleEvent e).1.openSockets) :
    h ∈ s.openSockets ∨ (e.event.ident = s.serverSocket ∧ h = e.accept.descriptor) := by
  by_cases hid : e.event.ident = s.serverSocket
  · rw [handleEvent_server hid] at hh
    rcases handleNewConnectionEvent_cases hr (ha hid).1 (hx.1 hid) with
      ⟨-, heq⟩ | ⟨-, pool, ctx, value, hvalue, -, -, -, -, -, -, heq⟩
    · rw [heq] at hh
      exact Or.inl hh
    · rw [heq, accepted] at hh
      simp only [hvalue] at hh
      split_ifs at hh
      · exact Or.inl hh
      · exact (Finset.mem_insert.1 hh).symm.imp_right fun heq => ⟨hid, heq⟩
  · obtain ⟨ctx, hctx, -⟩ := hl.resolve_left hid
    rcases handleEvent_client_tables hr.parser hid hctx with hs | ⟨s', hs', heq⟩ | hcut
    · rw [hs.openSockets] at hh
      exact Or.inl hh
    · rw [heq, (disconnected_tables s' ctx).2.2.1, hs'.openSockets] at hh
      exact Or.inl (Finset.mem_of_mem_erase hh)
    · exact absurd hcut (hx.2 ctx)

/-- The clients lie above the server. -/
theorem above_of_reachable {boot : Boot H} {guard : ServerState H → FiredEvent H → Prop}
    (hguard : ∀ s e, guard s e → AcceptsAbove s e)
    {c : EventLoop.Config (ServerState H) (FiredEvent H) Fault}
    (h : EventLoop.Reachable (handleConnections H) guard boot.state c)
    (hend : c.stopped = none ∨ ∀ s e, guard s e → Proceeds s e) :
    ∀ k ∈ c.state.openSockets, c.state.serverSocket.toUInt32 < k.toUInt32 := by
  induction h with
  | refl => exact fun k hk => absurd hk (Finset.notMem_empty k)
  | tail hreach hst ih =>
    cases hst with
    | fetch => exact ih (Or.inl rfl)
    | @handle s e rest ha hg =>
      obtain ⟨hrep, hlive⟩ := represents_of_reachable hreach
      obtain ⟨b, hrun, hr, -⟩ := hrep (Or.inl rfl)
      have hl : Live s e := hlive rfl e (List.mem_cons_self ..)
      have hx : Proceeds s e := by
        rcases hend with hok | hall
        · exact proceeds_of_ok (EventLoop.failure_eq_none.1 hok)
        · exact hall s e hg
      obtain ⟨b', hb'⟩ := handleEvent_simulates hr hrun.valid hl ha hx
      intro k hk
      show (s.handleEvent e).1.serverSocket.toUInt32 < k.toUInt32
      rw [hb'.serverSocket]
      rcases mem_openSockets_handleEvent hr hl ha hx hk with hk | ⟨hid, rfl⟩
      · exact ih (Or.inl rfl) k hk
      · exact (hguard s e hg hid).2.2

/-! ## Terminate -/

/-- `Terminate` returns, has disposed of every connection once, and leaves nobody. -/
structure ClosesEveryone (s : ServerState H) (answers : ℕ → DisposalAnswer) : Prop where
  returns : (s.terminate answers).2 = .ok ()
  disposed : ∃ ds : List Addr, (s.terminate answers).1.log = s.log ++ ds.map Action.disposed ∧
    ds.Nodup ∧ ∀ ctx, ctx ∈ ds ↔ ∃ key, s.connections.find key = some ctx
  connections : ∀ key, (s.terminate answers).1.connections.find key = none
  registrations : (s.terminate answers).1.registrations = ∅
  handedOut : (s.terminate answers).1.connectionsMemPool.handedOut = []

/-- The tables of a book without sessions. -/
theorem Represents.nobody {s : ServerState H} {b : Book SocketHandle Addr} (hr : Represents s b)
    (hlost : b.lost = []) (hnone : ∀ h, b.live h = none) :
    (∀ key, s.connections.find key = none) ∧ s.registrations = ∅ ∧
      s.connectionsMemPool.handedOut = [] := by
  refine ⟨fun key => ?_, Finmap.ext_lookup fun h => ?_, ?_⟩
  · exact (hr.find_eq hlost (Int32.ofUInt32 key)).trans (hnone _)
  · rw [hr.registrations, hnone, Finmap.lookup_empty]
    rfl
  · rw [List.eq_nil_iff_forall_not_mem]
    intro ctx hctx
    have hl := hr.live_of_handedOut hlost hctx
    rw [hnone] at hl
    cases hl

/-- The sessions of a book are the entries of the connection table. -/
theorem Represents.exists_find_iff {s : ServerState H} {b : Book SocketHandle Addr}
    (hr : Represents s b) (hlost : b.lost = []) {ctx : Addr} :
    (∃ key, s.connections.find key = some ctx) ↔ ∃ h, b.live h = some ctx := by
  constructor
  · rintro ⟨key, hkey⟩
    exact ⟨Int32.ofUInt32 key, (hr.find_eq hlost (Int32.ofUInt32 key)).symm.trans hkey⟩
  · rintro ⟨h, hh⟩
    exact ⟨h.toUInt32, (hr.find_eq hlost h).trans hh⟩

end ServerState

open ServerState

variable {H : Type}

/-- **`Terminate` closes everyone exactly when nobody has a greater descriptor than the
client that was accepted last, and the calls of every client's disposal return.** -/
theorem closesEveryone_iff {boot : Boot H} {guard : ServerState H → FiredEvent H → Prop}
    (hguard : ∀ s e, guard s e → AcceptsAbove s e)
    {c : EventLoop.Config (ServerState H) (FiredEvent H) Fault}
    (h : EventLoop.Reachable (handleConnections H) guard boot.state c)
    (hend : c.stopped = none ∨ ∀ s e, guard s e → Returns s.channel e.message.disposal)
    {last : Addr} (hlast : c.state.lastConnection = some last) (answers : ℕ → DisposalAnswer) :
    ClosesEveryone c.state answers ↔ ∀ k ∈ c.state.openSockets,
      k.toUInt32 ≤ (c.state.contexts last).socket.handle.toUInt32 ∧
        Returns c.state.channel (answers k.toUInt32.toNat) := by
  have hproceeds : c.stopped = none ∨ ∀ s e, guard s e → Proceeds s e :=
    hend.imp_right fun hret s e hg =>
      proceeds_of_returns (fun hid => (hguard s e hg hid).2.1) (hret s e hg)
  obtain ⟨b, hrun, hr, hlost⟩ := (represents_of_reachable h).1 hproceeds
  have hlost : b.lost = [] := hlost fun s e hg hid => (hguard s e hg hid).1
  have hterm : c.state.terminate answers =
      c.state.terminateFrom answers (c.state.contexts last).socket.handle.toUInt32.toNat := by
    rw [terminate, hlast]
  obtain ⟨hok, hsweeps⟩ :=
    terminateFrom_sweeps hr hrun.valid hlost answers
      (UInt32.toNat_lt (c.state.contexts last).socket.handle.toUInt32)
  constructor
  · intro hclose k hk
    have hreturns := hclose.returns
    rw [hterm, hok] at hreturns
    obtain ⟨⟨b', hr', hlost', hb'⟩, -⟩ := hsweeps hreturns
    rw [hr.openSockets] at hk
    obtain ⟨ctx, hlive⟩ := Option.isSome_iff_exists.1 hk
    have hwalk : InWalk c.state.serverSocket
        (c.state.contexts last).socket.handle.toUInt32.toNat k := by
      by_contra hw
      have hempty := hclose.connections k.toUInt32
      rw [hterm, hr'.find_eq hlost', hb', if_neg hw, hlive] at hempty
      cases hempty
    exact ⟨UInt32.le_iff_toNat_le.2 hwalk.2, hreturns k ctx hwalk hlive⟩
  · intro hall
    have hopen : ∀ k ctx, b.live k = some ctx → k ∈ c.state.openSockets := by
      intro k ctx hk
      rw [hr.openSockets, hk]
      rfl
    have hwalk : ∀ k ctx, b.live k = some ctx → InWalk c.state.serverSocket
        (c.state.contexts last).socket.handle.toUInt32.toNat k := fun k ctx hk =>
      ⟨above_of_reachable hguard h hproceeds k (hopen k ctx hk),
        UInt32.le_iff_toNat_le.1 (hall k (hopen k ctx hk)).1⟩
    have hreturns : WalkReturns c.state b answers
        (c.state.contexts last).socket.handle.toUInt32.toNat :=
      fun k ctx _ hk => (hall k (hopen k ctx hk)).2
    obtain ⟨⟨b', hr', hlost', hb'⟩, ds, hlog, hnd, hds⟩ := hsweeps hreturns
    have hnone : ∀ k, b'.live k = none := by
      intro k
      rw [hb']
      split_ifs with hw
      · rfl
      · cases hk : b.live k with
        | none => rfl
        | some ctx => exact absurd (hwalk k ctx hk) hw
    obtain ⟨hconn, hreg, hout⟩ := hr'.nobody hlost' hnone
    refine ⟨by rw [hterm, hok]; exact hreturns, ⟨ds, by rw [hterm, hlog], hnd, fun ctx => ?_⟩,
      ?_, ?_, ?_⟩
    · rw [hds, hr.exists_find_iff hlost]
      exact ⟨fun ⟨k, _, hk⟩ => ⟨k, hk⟩, fun ⟨k, hk⟩ => ⟨k, hwalk k ctx hk, hk⟩⟩
    · rw [hterm]
      exact hconn
    · rw [hterm]
      exact hreg
    · rw [hterm]
      exact hout

/-- The answers of a disposal whose calls return. -/
def returning : ℕ → DisposalAnswer := fun _ => ⟨.returned, .returned 0⟩

/-- Two clients, and the one that was accepted last has the greater descriptor. -/
theorem closesEveryone_iff_two : ClosesEveryone twoClients returning := by
  have htrace : EventLoop.Trace (handleConnections Unit) AcceptsAbove
      (Boot.plain .normal).state [client 0, client 1] ⟨twoClients, [], none⟩ :=
    trace_twoClients (fun _ => ⟨by decide, by decide, by decide⟩)
      (fun _ => ⟨by decide, by decide, by decide⟩)
  refine (@closesEveryone_iff _ _ _ (fun _ _ hg => hg) _ htrace.reachable (Or.inl rfl) 2 rfl
    returning).2 fun k hk => ?_
  have hopen : twoClients.openSockets = {4, 5} := by decide
  change k ∈ twoClients.openSockets at hk
  rw [hopen, Finset.mem_insert, Finset.mem_singleton] at hk
  rcases hk with rfl | rfl
  · exact ⟨by decide, rfl, nofun⟩
  · exact ⟨by decide, rfl, nofun⟩

/-- The walk starts at 4 and never comes to the client on 5. -/
theorem not_closesEveryone :
    EventLoop.Reachable (handleConnections Unit) AcceptsAbove (Boot.plain .normal).state
        ⟨reused, [], none⟩ ∧
      reused.lastConnection ≠ none ∧ reused.connections.find 5 ≠ none ∧
      (reused.terminate returning).1.connections.find 5 ≠ none ∧
      ¬ ClosesEveryone reused returning := by
  have hleft : (reused.terminate returning).1.connections.find 5 ≠ none := by decide
  have htrace : EventLoop.Trace (handleConnections Unit) AcceptsAbove
      (Boot.plain .normal).state [client 0, client 1, leaving, newcomer] ⟨reused, [], none⟩ :=
    trace_reused (fun _ => ⟨by decide, by decide, by decide⟩)
      (fun _ => ⟨by decide, by decide, by decide⟩) (fun hid => absurd hid (by decide))
      (fun _ => ⟨by decide, by decide, by decide⟩)
  exact ⟨htrace.reachable, by decide, by decide, hleft, fun h => hleft (h.connections 5)⟩

end WebServer
