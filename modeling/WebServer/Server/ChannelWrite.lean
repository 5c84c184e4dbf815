import WebServer.Http.Rendering
import WebServer.Server.Basic

/-!
# Writing to a transport that takes a part

A non-blocking transport takes some of the bytes it is offered, or none if it would block.
`Write` offers the buffer once and then frees it, and `WriteResponse` passes the count up.

* `Patient` — the transport that takes everything in the end, if it is asked again.
* `Outgoing.write_eq` — what `Write` does with a buffer.
* `Outgoing.losesNothing_iff` — when `WriteResponse` loses nothing.
-/

namespace WebServer

/-! ## The transport -/

/-- What is left of some bytes after calls, from the `k`-th on, that each offer what the call
before has left to a transport whose `k`-th call takes `room k` bytes at most. -/
def unsent (room : ℕ → ℕ) : ℕ → ByteString → ℕ → ByteString
  | _, data, 0 => data
  | k, data, calls + 1 => unsent room (k + 1) (data.drop (room k)) calls

/-- Whatever is offered is taken in the end. -/
def Patient (room : ℕ → ℕ) : Prop := ∀ k data, ∃ calls, unsent room k data calls = []

theorem length_unsent_le {room : ℕ → ℕ} (h : ∀ k, 0 < room k) (k : ℕ) (data : ByteString)
    (calls : ℕ) : (unsent room k data calls).length ≤ data.length - calls := by
  induction calls generalizing k data with
  | zero => exact le_rfl
  | succ calls ih =>
    have hrest := ih (k + 1) (data.drop (room k))
    have hpos := h k
    rw [List.length_drop] at hrest
    rw [unsent]
    omega

/-- It is enough that every call takes something. -/
theorem patient_of_pos {room : ℕ → ℕ} (h : ∀ k, 0 < room k) : Patient room := by
  intro k data
  have hlength := length_unsent_le h k data data.length
  exact ⟨data.length, List.length_eq_zero_iff.1 (by omega)⟩

/-! ## The channels -/

/-- What a call of `send` or of `tls_write` returns when it would block: -1, or
`TLS_WANT_POLLOUT`. -/
def wouldBlock : Channel → ℤ
  | .normal => -1
  | .secure => -3

/-- The bytes that a call for a buffer offers. -/
def offered (buffer : Buffer) : ByteString := buffer.data.take buffer.size.toNat

/-- What a connection has on its way out. -/
structure Outgoing where
  /-- Ghost: the bytes that the transport has taken so far. -/
  accepted : ByteString
  /-- Ghost: how many calls of the transport there have been. -/
  calls : ℕ
  /-- The `Buffer`s that are allocated. -/
  heap : Finmap (fun _ : Addr => Buffer)

namespace Outgoing

/-- `send` or `tls_write`, with its result. -/
def transportCall (s : Outgoing) (room : ℕ → ℕ) (channel : Channel) (bytes : ByteString) :
    Outgoing × ℤ :=
  let taken := bytes.take (room s.calls)
  ({ s with accepted := s.accepted ++ taken, calls := s.calls + 1 },
    if taken = [] ∧ bytes ≠ [] then wouldBlock channel else taken.length)

/-- `Write`; a buffer that is not allocated is not to be followed. -/
def write (s : Outgoing) (room : ℕ → ℕ) (channel : Channel) (ptr : Addr) :
    Outgoing × Except Fault ℤ :=
  match s.heap.lookup ptr with
  | none => (s, .error .nullPointer)
  | some buffer =>
    let call := s.transportCall room channel (offered buffer)
    ({ call.1 with heap := call.1.heap.erase ptr }, .ok call.2)

/-- `new Buffer` and its filling in. -/
def allocate (s : Outgoing) (ptr : Addr) (buffer : Buffer) : Outgoing :=
  { s with heap := s.heap.insert ptr buffer }

/-- `WriteResponse`, where `ptr` is what `new` returns for the buffer.  The count is cut to 16
bits. -/
def writeResponse (s : Outgoing) (room : ℕ → ℕ) (channel : Channel) (ptr : Addr)
    (response : HttpResponse) : Outgoing × Except Fault UInt16 :=
  let written := (s.allocate ptr (bufferFromResponse response)).write room channel ptr
  (written.1, written.2.map UInt16.ofInt)

/-- **What `Write` does with a buffer**: one call, of which the buffer does not survive. -/
theorem write_eq (s : Outgoing) (room : ℕ → ℕ) (channel : Channel) (ptr : Addr)
    (buffer : Buffer) :
    ((s.allocate ptr buffer).write room channel ptr).1 =
      ⟨s.accepted ++ (offered buffer).take (room s.calls), s.calls + 1,
        (s.heap.insert ptr buffer).erase ptr⟩ := by
  simp only [allocate, write, Finmap.lookup_insert]
  rfl

/-! ## What is lost -/

/-- A buffer that was allocated in between ends with these bytes. -/
def Holds (before after : Outgoing) (rest : ByteString) : Prop :=
  ∃ ptr held, after.heap.lookup ptr = some held ∧ before.heap.lookup ptr = none ∧
    rest <:+ held.data

/-- Of the bytes of the buffer the transport has taken a part, in order, and the rest, unless
there is none, is held for a later call. -/
def LosesNothing (before after : Outgoing) (buffer : Buffer) : Prop :=
  ∃ sent rest, after.accepted = before.accepted ++ sent ∧ sent ++ rest = offered buffer ∧
    (rest = [] ∨ Holds before after rest)

/-- Nothing is held after `Write`. -/
theorem not_holds_write (s : Outgoing) (room : ℕ → ℕ) (channel : Channel) (ptr : Addr)
    (buffer : Buffer) (rest : ByteString) :
    ¬ Holds s ((s.allocate ptr buffer).write room channel ptr).1 rest := by
  rintro ⟨q, held, hafter, hbefore, -⟩
  rw [write_eq] at hafter
  by_cases hq : q = ptr
  · subst hq
    rw [Finmap.lookup_erase] at hafter
    cases hafter
  · rw [Finmap.lookup_erase_ne hq, Finmap.lookup_insert_of_ne _ hq, hbefore] at hafter
    cases hafter

/-- One call of `Write`. -/
theorem losesNothing_write_iff (s : Outgoing) (room : ℕ → ℕ) (channel : Channel) (ptr : Addr)
    (buffer : Buffer) :
    LosesNothing s ((s.allocate ptr buffer).write room channel ptr).1 buffer ↔
      (offered buffer).length ≤ room s.calls := by
  constructor
  · rintro ⟨sent, rest, haccepted, hoffered, hrest⟩
    obtain rfl := hrest.resolve_right (not_holds_write s room channel ptr buffer rest)
    rw [write_eq] at haccepted
    rw [List.append_nil] at hoffered
    have htaken := List.append_cancel_left haccepted
    rw [hoffered] at htaken
    exact List.take_eq_self_iff _ |>.1 htaken
  · intro hroom
    refine ⟨offered buffer, [], ?_, List.append_nil _, Or.inl rfl⟩
    rw [write_eq, List.take_of_length_le hroom]

/-- A response is offered up to the size of its buffer. -/
theorem length_offered_bufferFromResponse (response : HttpResponse) :
    (offered (bufferFromResponse response)).length =
      (bufferFromResponse response).size.toNat := by
  have hsize : (bufferFromResponse response).size.toNat =
      (bufferFromResponse response).data.length % 65536 := UInt16.toNat_ofNat'
  rw [offered, List.length_take]
  omega

/-- **Nothing is lost exactly when the first call takes everything.**  What it leaves is freed
with the buffer, be it that the transport takes a part, or that it would block. -/
theorem losesNothing_iff (s : Outgoing) (room : ℕ → ℕ) (channel : Channel) (ptr : Addr) :
    (∀ buffer, LosesNothing s ((s.allocate ptr buffer).write room channel ptr).1 buffer ↔
        (offered buffer).length ≤ room s.calls) ∧
      ∀ response, LosesNothing s (s.writeResponse room channel ptr response).1
          (bufferFromResponse response) ↔
        (bufferFromResponse response).size.toNat ≤ room s.calls := by
  refine ⟨losesNothing_write_iff s room channel ptr, fun response => ?_⟩
  rw [← length_offered_bufferFromResponse]
  exact losesNothing_write_iff s room channel ptr _

/-- A transport that takes ten bytes at a time gets the first ten of a response. -/
theorem not_losesNothing :
    Patient (fun _ => 10) ∧
      ¬ LosesNothing ⟨[], 0, ∅⟩ (writeResponse ⟨[], 0, ∅⟩ (fun _ => 10) .normal 1 .new).1
        (bufferFromResponse .new) := by
  refine ⟨patient_of_pos fun _ => by decide, fun h => ?_⟩
  have hroom := (losesNothing_write_iff ..).1 h
  rw [length_offered_bufferFromResponse] at hroom
  exact absurd hroom (by decide +kernel)

end Outgoing

end WebServer
