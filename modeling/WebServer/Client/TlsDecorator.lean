import WebServer.Server.ChannelRead

/-!
# `SendData` of the TLS client

The loop of `TlsDecorator::SendData` offers all of its data to every call of `tls_write`, however
much was accepted before, and goes on after an error as if nothing had happened.

* `TlsDecorator.sendData` — the loop.
* `TlsDecorator.sendsOnce_iff` — when every byte is sent once.
* `TlsDecorator.sendData_exits_iff` — when the loop ends although the connection fails.
-/

namespace WebServer

/-! ## The loop -/

/-- What a call of `tls_write` comes to: it has accepted the first `n` bytes of what it was
offered, or it returns `-(n + 1)`. -/
inductive WriteResult
  | accepted (n : ℕ)
  | failed (n : ℕ)
  deriving DecidableEq

namespace WriteResult

/-- What the call returns. -/
def value : WriteResult → ℤ
  | .accepted n => n
  | .failed n => Int.negSucc n

/-- How many bytes it has accepted. -/
def count : WriteResult → ℕ
  | .accepted n => n
  | .failed _ => 0

/-- It asks for more from the server first. -/
def wantsPollin (result : WriteResult) : Bool := result.value == tlsWantPollin

end WriteResult

/-- `TlsDecorator`, as far as `SendData` reads it. -/
structure TlsDecorator where
  receiveBuffer : ByteString
  isOpen : Bool

/-- The variables of `SendData`. -/
structure Sending where
  offset : ℕ
  /-- It is in `wakeCondition.wait`, whose condition nobody makes true. -/
  waiting : Bool
  /-- Ghost: the bytes that were accepted, call by call. -/
  accepted : ByteString
  /-- Ghost: where in the data they are from. -/
  positions : List ℕ

namespace Sending

/-- Before the first round. -/
def start : Sending := ⟨0, false, [], []⟩

/-- `tls_write` of the data from an index on, of which `n` bytes are accepted. -/
def tlsWrite (s : Sending) (data : ByteString) (first n : ℕ) : Sending :=
  { s with
    accepted := s.accepted ++ (data.drop first).take n
    positions := s.positions ++ List.range' first n }

end Sending

namespace TlsDecorator

/-- As it is constructed. -/
def new : TlsDecorator := ⟨[], true⟩

/-- The condition of the wait.  Nothing in the class writes either member, so that it is what it
is when `SendData` is called. -/
def wakes (d : TlsDecorator) : Bool := !d.isOpen || !d.receiveBuffer.isEmpty

/-- The condition of the loop is false. -/
def done (data : ByteString) (s : Sending) : Bool := !decide (s.offset < data.length)

/-- A round: the call is given `data.data()` and `data.size()`. -/
def body (d : TlsDecorator) (data : ByteString) (s : Sending) (result : WriteResult) : Sending :=
  if s.waiting then s
  else
    let s := s.tlsWrite data 0 result.count
    let amount := result.value
    if amount = tlsWantPollin then { s with waiting := !d.wakes }
    else if amount < 0 then s -- "stop connection"
    else { s with offset := s.offset + amount.toNat }

/-- The loop of `SendData`, on the results of its calls. -/
def sendData (d : TlsDecorator) (data : ByteString) (results : List WriteResult) : Sending :=
  Rounds.rounds (done data) (d.body data) .start results

/-- A wait that does not return. -/
def hangs (d : TlsDecorator) (result : WriteResult) : Bool := result.wantsPollin && !d.wakes

/-! ## A round -/

theorem done_iff {data : ByteString} {s : Sending} :
    done data s = true ↔ data.length ≤ s.offset := by
  rw [done, Bool.not_eq_true', decide_eq_false_iff_not, not_lt]

theorem body_of_waiting {d : TlsDecorator} {data : ByteString} {s : Sending}
    (h : s.waiting = true) (result : WriteResult) : d.body data s result = s := by
  rw [body, if_pos h]

/-- A call that accepts something, or nothing. -/
theorem body_accepted (d : TlsDecorator) (data : ByteString) {s : Sending}
    (h : s.waiting = false) (n : ℕ) :
    d.body data s (.accepted n) =
      ⟨s.offset + n, false, s.accepted ++ data.take n, s.positions ++ List.range' 0 n⟩ := by
  have hpollin : ¬ (n : ℤ) = tlsWantPollin := by
    rw [tlsWantPollin]
    omega
  have hneg : ¬ (n : ℤ) < 0 := by omega
  simp only [body, h, Bool.false_eq_true, if_false, WriteResult.value, WriteResult.count,
    if_neg hpollin, if_neg hneg, Int.toNat_natCast, Sending.tlsWrite, List.drop_zero]

/-- A call that fails: nothing happens, if it is not a wait that does not return. -/
theorem body_failed (d : TlsDecorator) (data : ByteString) {s : Sending}
    (h : s.waiting = false) (n : ℕ) :
    d.body data s (.failed n) = { s with waiting := d.hangs (.failed n) } := by
  obtain ⟨offset, waiting, accepted, positions⟩ := s
  cases h
  have hwrite : Sending.tlsWrite ⟨offset, false, accepted, positions⟩ data 0 0 =
      ⟨offset, false, accepted, positions⟩ := by
    rw [Sending.tlsWrite, List.take_zero, List.append_nil, List.range'_zero, List.append_nil]
  have hneg : Int.negSucc n < 0 := Int.negSucc_lt_zero n
  by_cases hpollin : Int.negSucc n = tlsWantPollin
  · simp [body, WriteResult.value, WriteResult.count, hpollin, hwrite, hangs,
      WriteResult.wantsPollin]
  · simp [body, WriteResult.value, WriteResult.count, hpollin, hneg, hwrite, hangs,
      WriteResult.wantsPollin]

/-- The loop counts what is accepted. -/
theorem counts (d : TlsDecorator) (data : ByteString) :
    Rounds.Counts (done data) (d.body data) data.length Sending.offset WriteResult.count
      Sending.waiting d.hangs where
  done_iff := fun _ => done_iff
  go := by
    intro s result hs hresult
    cases result with
    | accepted n =>
      rw [body_accepted d data hs]
      exact ⟨rfl, rfl⟩
    | failed n =>
      rw [body_failed d data hs]
      exact ⟨hresult, rfl⟩
  hang := by
    intro s result hs hresult
    cases result with
    | accepted n =>
      have hvalue : (n : ℤ) = -2 := eq_of_beq (Bool.and_eq_true_iff.1 hresult).1
      omega
    | failed n =>
      rw [body_failed d data hs]
      exact ⟨hresult, rfl⟩
  stay := fun _ result hs => body_of_waiting hs result

/-! ## What is sent -/

/-- Every byte of the data is accepted once, in order, and no other. -/
structure SendsOnce (data : ByteString) (s : Sending) : Prop where
  accepted : s.accepted = data
  positions : s.positions = List.range' 0 data.length

/-- The first count that is not zero. -/
def firstCount (results : List WriteResult) : Option ℕ :=
  (results.map WriteResult.count).find? (0 < ·)

/-- Whatever is accepted more begins with the first byte. -/
theorem positions_rounds (d : TlsDecorator) (data : ByteString) (results : List WriteResult)
    (s : Sending) :
    ∃ more, (Rounds.rounds (done data) (d.body data) s results).positions = s.positions ++ more ∧
      (Rounds.rounds (done data) (d.body data) s results).offset = s.offset + more.length ∧
      (more = [] ∨ more.head? = some 0) := by
  induction results generalizing s with
  | nil => exact ⟨[], (List.append_nil _).symm, rfl, Or.inl rfl⟩
  | cons result results ih =>
    cases hdone : done data s with
    | true =>
      rw [Rounds.rounds_of_done hdone]
      exact ⟨[], (List.append_nil _).symm, rfl, Or.inl rfl⟩
    | false =>
      rw [Rounds.rounds_cons hdone]
      obtain ⟨more, hpositions, hoffset, hhead⟩ := ih (d.body data s result)
      cases hs : s.waiting with
      | true =>
        rw [body_of_waiting hs] at hpositions hoffset ⊢
        exact ⟨more, hpositions, hoffset, hhead⟩
      | false =>
        cases result with
        | failed n =>
          rw [body_failed d data hs] at hpositions hoffset ⊢
          exact ⟨more, hpositions, hoffset, hhead⟩
        | accepted n =>
          rw [body_accepted d data hs] at hpositions hoffset ⊢
          refine ⟨List.range' 0 n ++ more, ?_, ?_, ?_⟩
          · rw [hpositions, List.append_assoc]
          · rw [hoffset, List.length_append, List.length_range', Nat.add_assoc]
          · cases n with
            | zero => exact hhead
            | succ n => exact Or.inr rfl

/-- A call that is the first to accept something decides: if it takes a part only, the next
one that does begins again. -/
theorem sendsOnce_iff_of_first (d : TlsDecorator) {data : ByteString} {n : ℕ} (hn : 0 < n)
    (results : List WriteResult)
    (hdone : done data (Rounds.rounds (done data) (d.body data)
      ⟨n, false, data.take n, List.range' 0 n⟩ results) = true) :
    SendsOnce data (Rounds.rounds (done data) (d.body data)
      ⟨n, false, data.take n, List.range' 0 n⟩ results) ↔ n = data.length := by
  constructor
  · intro h
    obtain ⟨more, hpositions, hoffset, hhead⟩ := positions_rounds d data results
      ⟨n, false, data.take n, List.range' 0 n⟩
    have hall := hpositions.symm.trans h.positions
    have hlength := congrArg List.length hall
    rw [List.length_append, List.length_range', List.length_range'] at hlength
    rcases hhead with rfl | hhead
    · exact hlength
    · -- the position behind the first `n` would have to be `n`, and is 0
      obtain ⟨rest, rfl⟩ : ∃ rest, more = 0 :: rest := List.head?_eq_some_iff.1 hhead
      have hzero : (List.range' 0 data.length)[n]? = some 0 := by
        rw [← hall, List.getElem?_append_right (by rw [List.length_range']), List.length_range',
          Nat.sub_self]
        rfl
      rw [List.length_cons] at hlength
      rw [List.getElem?_range' (by omega), Option.some.injEq] at hzero
      omega
  · rintro rfl
    rw [Rounds.rounds_of_done (done_iff.2 le_rfl)]
    exact ⟨List.take_length, rfl⟩

/-- What the first count is after a result that accepts nothing. -/
theorem firstCount_cons_of_zero {result : WriteResult} (h : result.count = 0)
    (results : List WriteResult) : firstCount (result :: results) = firstCount results := by
  rw [firstCount, List.map_cons, List.find?_cons_of_neg (by rw [h]; decide)]
  rfl

/-- **When `SendData` sends its data once**, if it returns: there is none, or the first call that
accepts something accepts it all. -/
theorem sendsOnce_iff {d : TlsDecorator} {data : ByteString} {results : List WriteResult}
    (hdone : done data (d.sendData data results) = true) :
    SendsOnce data (d.sendData data results) ↔
      data = [] ∨ firstCount results = some data.length := by
  by_cases hdata : data = []
  · subst hdata
    have hnone : d.sendData [] results = .start := Rounds.rounds_of_done rfl results
    rw [hnone]
    exact iff_of_true ⟨rfl, rfl⟩ (Or.inl rfl)
  · rw [or_iff_right hdata]
    have hpos : 0 < data.length := List.length_pos_iff.2 hdata
    have hstart : done data .start = false := by
      rw [← Bool.not_eq_true, done_iff]
      exact not_le.2 hpos
    unfold sendData at hdone ⊢
    induction results with
    | nil => exact absurd (hdone.symm.trans hstart) (by decide)
    | cons result results ih =>
      rw [Rounds.rounds_cons hstart] at hdone ⊢
      cases result with
      | accepted n =>
        rw [body_accepted d data rfl] at hdone ⊢
        simp only [Sending.start, Nat.zero_add, List.nil_append] at hdone ⊢
        cases n with
        | zero =>
          rw [firstCount_cons_of_zero rfl]
          exact ih hdone
        | succ n =>
          rw [sendsOnce_iff_of_first d n.succ_pos results hdone]
          exact Option.some_inj.symm
      | failed n =>
        rw [body_failed d data rfl] at hdone ⊢
        rw [firstCount_cons_of_zero rfl]
        cases hhangs : d.hangs (.failed n) with
        | true =>
          rw [hhangs, (counts d data).rounds_of_hung rfl] at hdone
          exact absurd (hdone.symm.trans hstart) (by decide)
        | false =>
          rw [hhangs] at hdone
          exact ih hdone

/-- One call that takes everything, after a wait. -/
theorem sendsOnce_iff_whole :
    SendsOnce (bytes "ab") (sendData ⟨[0], true⟩ (bytes "ab") [.failed 1, .accepted 2]) :=
  (sendsOnce_iff (by decide)).2 (Or.inr (by decide))

/-- Two calls, each of which accepts a byte: it is the first one, twice. -/
theorem not_sendsOnce :
    done (bytes "ab") (sendData new (bytes "ab") [.accepted 1, .accepted 1]) = true ∧
      ¬ SendsOnce (bytes "ab") (sendData new (bytes "ab") [.accepted 1, .accepted 1]) ∧
      (sendData new (bytes "ab") [.accepted 1, .accepted 1]).accepted = bytes "aa" := by
  refine ⟨by decide, fun h => ?_, by decide⟩
  exact absurd h.accepted (by decide)

/-! ## When it ends -/

/-- The loop ends on the results of a stream. -/
def Exits (d : TlsDecorator) (data : ByteString) (results : Stream' WriteResult) : Prop :=
  Rounds.Exits (done data) (d.body data) .start results

/-- **When `SendData` ends on a connection that fails**: what was accepted before makes up the
length of the data, counting what was accepted more than once, and up to the first wait only if
that does not return. -/
theorem sendData_exits_iff (d : TlsDecorator) (data : ByteString) (before : List WriteResult)
    (code : ℕ) :
    d.Exits data (before ++ₛ Stream'.const (.failed code)) ↔
      data.length ≤ Rounds.gained WriteResult.count d.hangs before := by
  refine ((counts d data).exits_iff rfl rfl before).trans ?_
  rw [Sending.start, Nat.zero_add]

/-- A byte to send, and a peer that is gone. -/
theorem not_sendData_exits : ¬ new.Exits (bytes "a") ([] ++ₛ Stream'.const (.failed 0)) := by
  have h := (counts new (bytes "a")).exits_iff (s := .start) rfl
    (show WriteResult.count (.failed 0) = 0 from rfl) []
  exact fun hexits => absurd (h.1 hexits) (by decide)

end TlsDecorator

end WebServer
