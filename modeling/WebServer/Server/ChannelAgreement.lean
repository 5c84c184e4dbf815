import WebServer.Server.ReadPool

/-!
# Two channels behind one interface

`NormalChannel::Read` goes on until its socket would block, `SecureChannel::Read` until it has
read something.  So with one chunk at hand they agree, and with any other number they do not.

* `ReadPool.read_snd` — what a `Read` returns, if it does.
* `Ready.read_normal`, `Ready.read_secure_cons` — what each makes of the chunks at hand.
* `channels_agree_iff` — when both return all of them.
-/

namespace WebServer

variable {size : ℕ}

/-! ## What is at hand -/

/-- A chunk that both channels take whole: not empty, without a NUL, and shorter than the blocks
of either. -/
structure Plaintext where
  bytes : ByteString
  ne_nil : bytes ≠ []
  no_nul : 0 ∉ bytes
  short : ∀ channel : Channel, bytes.length < channel.blockSize

/-- The chunk as the channel receives it. -/
def Plaintext.chunk (p : Plaintext) (channel : Channel) : Chunk channel.blockSize :=
  ⟨p.bytes, (p.short channel).le⟩

namespace Channel

/-- What the transport returns when there is nothing at hand: -1, or `TLS_WANT_POLLIN`. -/
def nothingYet : Channel → ReadResult size
  | .normal => .failed 0
  | .secure => .failed 1

/-- The chunks at hand. -/
def atHand (channel : Channel) (chunks : List Plaintext) : List (ReadResult channel.blockSize) :=
  chunks.map fun p => .received (p.chunk channel)

/-- The results of a transport that has some chunks at hand and then, for `waits` calls more
than one, nothing. -/
def available (channel : Channel) (chunks : List Plaintext) (waits : ℕ) :
    List (ReadResult channel.blockSize) :=
  channel.atHand chunks ++ List.replicate (waits + 1) channel.nothingYet

/-- The chunks at hand that the loop leaves unread. -/
def unread (channel : Channel) (chunks : List Plaintext) (waits : ℕ) : List Plaintext :=
  chunks.drop (Rounds.consumed channel.ends (channel.available chunks waits)).length

end Channel

/-- A channel whose pool hands out a block of zeros. -/
structure Ready (channel : Channel) where
  pool : ReadPool channel.blockSize
  fresh : Addr
  contents : Block channel.blockSize
  ptr : Addr
  obtained : pool.obtained fresh = some ptr
  initial_eq : pool.initial ⟨fresh, contents, []⟩ ptr = .zero channel.blockSize

/-- `Read`, with these results. -/
def Ready.read {channel : Channel} (r : Ready channel)
    (results : List (ReadResult channel.blockSize)) : Except Fault ByteString :=
  (r.pool.read channel ⟨r.fresh, r.contents, results⟩).2

/-! ## What a `Read` returns -/

/-- With a block, `Read` returns the message of its loop, if the results end the loop. -/
theorem ReadPool.read_snd {channel : Channel} {s : ReadPool size} {c : ReadCall size} {ptr : Addr}
    (hptr : s.obtained c.fresh = some ptr) :
    (s.read channel c).2 =
      if c.results.any channel.ends then (channel.loop (s.initial c ptr) c.results).message
      else .error .diverges := by
  rw [ReadPool.read_of_obtained hptr]
  exact apply_ite Prod.snd _ _ _

namespace Ready

theorem read_eq {channel : Channel} (r : Ready channel)
    (results : List (ReadResult channel.blockSize)) :
    r.read results = if results.any channel.ends then (channel.loop (.zero _) results).message
      else .error .diverges := by
  rw [← r.initial_eq]
  exact ReadPool.read_snd r.obtained

end Ready

namespace Channel

/-- A chunk does not end the loop of a plain channel. -/
theorem ends_atHand_normal (chunks : List Plaintext) :
    ∀ result ∈ Channel.normal.atHand chunks, Channel.normal.ends result = false := by
  intro result hresult
  obtain ⟨p, -, rfl⟩ := List.mem_map.1 hresult
  rfl

/-- A plain channel takes all chunks and one result more. -/
theorem consumed_normal (chunks : List Plaintext) (waits : ℕ) :
    Rounds.consumed Channel.normal.ends (Channel.normal.available chunks waits) =
      Channel.normal.atHand chunks ++ [.failed 0] :=
  Rounds.consumed_append (ends_atHand_normal chunks)

theorem unread_normal (chunks : List Plaintext) (waits : ℕ) :
    Channel.normal.unread chunks waits = [] := by
  rw [unread, consumed_normal, List.length_append, atHand, List.length_map]
  exact List.drop_eq_nil_of_le (Nat.le_add_right ..)

/-- A secure channel takes the first chunk and no other. -/
theorem consumed_secure (p : Plaintext) (chunks : List Plaintext) (waits : ℕ) :
    Rounds.consumed Channel.secure.ends (Channel.secure.available (p :: chunks) waits) =
      [.received (p.chunk .secure)] := rfl

theorem unread_secure (p : Plaintext) (chunks : List Plaintext) (waits : ℕ) :
    Channel.secure.unread (p :: chunks) waits = chunks := by
  rw [unread, consumed_secure]
  rfl

end Channel

namespace Ready

/-- A plain channel returns all chunks at hand. -/
theorem read_normal (r : Ready .normal) (chunks : List Plaintext) (waits : ℕ) :
    r.read (Channel.normal.available chunks waits) = .ok (chunks.flatMap Plaintext.bytes) := by
  have hends : (Channel.normal.available chunks waits).any Channel.normal.ends = true :=
    List.any_eq_true.2 ⟨.failed 0, List.mem_append_right _ List.mem_cons_self, rfl⟩
  have hmessage := @Channel.message_normal_eq_iff _ (.zero Channel.normal.blockSize)
    (chunks.map (·.chunk .normal)) (List.forall_mem_map.2 fun p _ => p.short .normal)
  have hnuls : ∀ chunk ∈ chunks.map (·.chunk .normal), 0 ∉ chunk.bytes :=
    List.forall_mem_map.2 fun p _ => p.no_nul
  have hbehind : ∀ chunk ∈ (chunks.map (·.chunk .normal)).head?,
      (Block.zero Channel.normal.blockSize).bytes[chunk.bytes.length]? = some 0 := by
    intro chunk hchunk
    obtain ⟨p, -, rfl⟩ := List.mem_map.1 (List.mem_of_mem_head? hchunk)
    rw [Block.zero, List.getElem?_replicate]
    exact if_pos (p.short .normal)
  -- the loop does not ask for anything behind the first -1
  have hloop : (Channel.normal.loop (.zero _) (Channel.normal.available chunks waits)).message =
      (Channel.normal.loop (.zero _) (Channel.normal.available chunks 0)).message := by
    rw [Channel.loop_eq, Channel.loop_eq, Channel.consumed_normal, Channel.consumed_normal]
  have hatHand : Channel.normal.available chunks 0 =
      (chunks.map (·.chunk .normal)).map ReadResult.received ++ [.failed 0] := by
    rw [List.map_map]
    rfl
  rw [r.read_eq, if_pos hends, hloop, hatHand, hmessage.2 ⟨hnuls, hbehind⟩,
    List.flatMap_map]
  rfl

/-- A secure channel returns the first chunk at hand. -/
theorem read_secure_cons (r : Ready .secure) (p : Plaintext) (chunks : List Plaintext)
    (waits : ℕ) : r.read (Channel.secure.available (p :: chunks) waits) = .ok p.bytes := by
  have happend := @Channel.appendBlock_receive_zero _ (p.chunk .secure) (p.short .secure) []
  have hends : (Channel.secure.available (p :: chunks) waits).any Channel.secure.ends = true := rfl
  rw [r.read_eq, if_pos hends, Channel.loop_eq, Channel.consumed_secure]
  refine happend.trans ?_
  rw [List.nil_append]
  exact congrArg Except.ok (cString_of_notMem p.no_nul)

/-- Without a chunk it does not return. -/
theorem read_secure_nil (r : Ready .secure) (waits : ℕ) :
    r.read (Channel.secure.available [] waits) = .error .diverges := by
  have hends : ¬ (Channel.secure.available [] waits).any Channel.secure.ends = true := by
    rw [List.any_eq_true]
    rintro ⟨result, hresult, hends⟩
    rw [List.eq_of_mem_replicate hresult] at hends
    cases hends
  rw [r.read_eq, if_neg hends]

end Ready

/-! ## Agreement -/

/-- One `Read` of either channel returns all chunks at hand, and leaves none of them unread. -/
structure ChannelsAgree (normal : Ready .normal) (secure : Ready .secure)
    (chunks : List Plaintext) (waits : ℕ) : Prop where
  normal_read : normal.read (Channel.normal.available chunks waits) =
    .ok (chunks.flatMap Plaintext.bytes)
  secure_read : secure.read (Channel.secure.available chunks waits) =
    .ok (chunks.flatMap Plaintext.bytes)
  unread : ∀ channel : Channel, channel.unread chunks waits = []

/-- **The channels agree on one chunk, and on no other number of them.** -/
theorem channels_agree_iff (normal : Ready .normal) (secure : Ready .secure)
    (chunks : List Plaintext) (waits : ℕ) :
    ChannelsAgree normal secure chunks waits ↔ chunks.length = 1 := by
  constructor
  · intro h
    cases chunks with
    | nil => exact nomatch (secure.read_secure_nil waits).symm.trans h.secure_read
    | cons p chunks =>
      have hunread := h.unread .secure
      rw [Channel.unread_secure] at hunread
      rw [hunread, List.length_singleton]
  · intro h
    obtain ⟨p, rfl⟩ := List.length_eq_one_iff.1 h
    refine ⟨normal.read_normal [p] waits, ?_, fun channel => ?_⟩
    · rw [secure.read_secure_cons, List.flatMap_singleton]
    · cases channel with
      | normal => exact Channel.unread_normal [p] waits
      | secure => exact Channel.unread_secure p [] waits

/-- A channel as its constructor leaves it, with blocks of zeros. -/
def Ready.zeroed (channel : Channel) : Ready channel where
  pool := .new channel [1, 2, 3, 4, 5] fun _ => .zero channel.blockSize
  fresh := 6
  contents := .zero channel.blockSize
  ptr := 5
  obtained := by cases channel <;> rfl
  initial_eq := rfl

/-- A letter. -/
def Plaintext.letter (c : UInt8) (hc : c ≠ 0) : Plaintext where
  bytes := [c]
  ne_nil := List.cons_ne_nil c []
  no_nul := by simpa using hc.symm
  short := by
    intro channel
    show 1 < channel.blockSize
    cases channel <;> decide

/-- Of two letters the secure channel returns the first, and of none it returns nothing. -/
theorem not_channels_agree :
    ¬ ChannelsAgree (.zeroed .normal) (.zeroed .secure)
        [.letter 97 (by decide), .letter 98 (by decide)] 0 ∧
      ¬ ChannelsAgree (.zeroed .normal) (.zeroed .secure) [] 0 := by
  constructor
  · intro h
    have hread := h.secure_read
    rw [Ready.read_secure_cons] at hread
    exact absurd (Except.ok.inj hread) (by decide)
  · intro h
    exact nomatch (Ready.read_secure_nil _ 0).symm.trans h.secure_read

end WebServer
