import WebServer.Abstractions.MemoryPoolRuns
import WebServer.Server.ChannelRead

/-!
# `Read` and the pool of its channel

A `Read` takes a block from the pool of its channel, runs its loop on it and gives it back,
set to zero.  A block that is new holds whatever the memory holds.

* `ReadPool.read_eq` — what a `Read` that returns does.
* `ReadPool.readsExactly_iff` — when a plain channel returns what it received.
* `ReadPool.no_leakage` — a `Read` on a block that was used returns what its own connection
  sent, whatever was read before.
-/

namespace WebServer

variable {size : ℕ}

/-! ## The model -/

/-- The pool of a channel, with the memory of its blocks. -/
structure ReadPool (size : ℕ) where
  memoryPool : MemoryPool
  memory : Addr → Block size
  /-- Ghost: the blocks that a `Read` has given back. -/
  used : List Addr

/-- A call of `Read`, by what it meets outside: the block that `new` returns if the pool has to
grow, with what there is in it, and the results of `recv` or `tls_read`. -/
structure ReadCall (size : ℕ) where
  fresh : Addr
  contents : Block size
  results : List (ReadResult size)

/-- The results end the loop, so that the call returns. -/
def ReadCall.Returns (channel : Channel) (c : ReadCall size) : Prop :=
  c.results.any channel.ends = true

namespace ReadPool

/-- The pool that the constructor of the channel makes. -/
def new (channel : Channel) (blocks : List Addr) (memory : Addr → Block channel.blockSize) :
    ReadPool channel.blockSize :=
  ⟨MemoryPool.new channel.blockSize blocks 100, memory, []⟩

/-- What `Allocate<char>` returns. -/
def obtained (s : ReadPool size) (fresh : Addr) : Option Addr :=
  ((s.memoryPool.allocate 1 (some fresh)).2.toOption).join

/-- What there is in the block: an empty pool gets a new one. -/
def initial (s : ReadPool size) (c : ReadCall size) (readStream : Addr) : Block size :=
  if s.memoryPool.blocks = [] then c.contents else s.memory readStream

/-- `Read`.  The pool has reserved room for all its blocks, so `Release` puts the block back. -/
def read (channel : Channel) (s : ReadPool size) (c : ReadCall size) :
    ReadPool size × Except Fault ByteString :=
  match s.memoryPool.allocate 1 (some c.fresh) with
  | (memoryPool, .error f) => ({ s with memoryPool }, .error f)
  | (memoryPool, .ok none) => ({ s with memoryPool }, .error .nullPointer)
  | (memoryPool, .ok (some readStream)) =>
    let loop := channel.loop (s.initial c readStream) c.results
    if loop.ended then
      (⟨memoryPool.release readStream true, Function.update s.memory readStream loop.block,
        readStream :: s.used⟩, loop.message)
    else ({ s with memoryPool }, .error .diverges)

end ReadPool

/-! ## Allocation -/

namespace MemoryPool

/-- A block comes from the free list, or is new when that is empty; without a block nothing has
happened. -/
theorem allocate_outcome (pool : MemoryPool) (n : ℕ) (fresh : Addr) :
    (∃ pool' ptr, pool.allocate n (some fresh) = (pool', .ok (some ptr)) ∧
        pool'.blocks = pool.blocks.tail ∧
        (pool.blocks = [] ∧ ptr = fresh ∨ pool.blocks = ptr :: pool.blocks.tail)) ∨
      ∃ result, pool.allocate n (some fresh) = (pool, result) ∧
        ∀ ptr, result ≠ .ok (some ptr) := by
  by_cases hsize : pool.blockSize < n
  · exact Or.inr ⟨.ok none, if_pos hsize, nofun⟩
  · rw [allocate_of_le (not_lt.1 hsize)]
    rcases pool.getMemory_outcome (some fresh) with ⟨ptr, blocks, hb, he⟩ |
      ⟨hb, -, ptr, hptr, he⟩ | ⟨-, -, hnone, -⟩ | ⟨-, -, he⟩
    · refine Or.inl ⟨_, ptr, by rw [he]; rfl, ?_, Or.inr ?_⟩
      · rw [hb]
        rfl
      · rw [hb]
        rfl
    · cases hptr
      exact Or.inl ⟨_, fresh, by rw [he]; rfl, by rw [hb]; rfl, Or.inl ⟨hb, rfl⟩⟩
    · cases hnone
    · exact Or.inr ⟨.error (.thrown exhausted), by rw [he]; rfl, nofun⟩

end MemoryPool

namespace ReadPool

/-! ## A call -/

/-- What `Read` does with a block: it gives it back, if the results end its loop. -/
theorem read_of_obtained {channel : Channel} {s : ReadPool size} {c : ReadCall size} {ptr : Addr}
    (hptr : s.obtained c.fresh = some ptr) :
    s.read channel c =
      if c.results.any channel.ends then
        (⟨(s.memoryPool.allocate 1 (some c.fresh)).1.release ptr true,
          Function.update s.memory ptr (channel.loop (s.initial c ptr) c.results).block,
          ptr :: s.used⟩, (channel.loop (s.initial c ptr) c.results).message)
      else ({ s with memoryPool := (s.memoryPool.allocate 1 (some c.fresh)).1 },
        .error .diverges) := by
  have hended : (channel.loop (s.initial c ptr) c.results).ended = c.results.any channel.ends := by
    rw [Channel.loop_eq]
  rw [read]
  rw [obtained] at hptr
  rcases hallocate : s.memoryPool.allocate 1 (some c.fresh) with ⟨pool, f | _ | p⟩
  · rw [hallocate] at hptr
    cases hptr
  · rw [hallocate] at hptr
    cases hptr
  · rw [hallocate] at hptr
    cases hptr
    simp only [hended]

/-- **What a `Read` that returns does.** -/
theorem read_eq {channel : Channel} {s : ReadPool size} {c : ReadCall size} {ptr : Addr}
    (hptr : s.obtained c.fresh = some ptr) (hreturns : c.Returns channel) :
    s.read channel c =
      (⟨(s.memoryPool.allocate 1 (some c.fresh)).1.release ptr true,
        Function.update s.memory ptr (channel.loop (s.initial c ptr) c.results).block,
        ptr :: s.used⟩, (channel.loop (s.initial c ptr) c.results).message) := by
  rw [read_of_obtained hptr]
  exact if_pos hreturns

/-- Its block is at the top of the free list again. -/
theorem blocks_read {channel : Channel} {s : ReadPool size} {c : ReadCall size} {ptr : Addr}
    (hptr : s.obtained c.fresh = some ptr) (hreturns : c.Returns channel) :
    (s.read channel c).1.memoryPool.blocks = ptr :: s.memoryPool.blocks.tail := by
  rw [read_eq hptr hreturns]
  rw [obtained] at hptr
  show ptr :: (s.memoryPool.allocate 1 (some c.fresh)).1.blocks = _
  rcases s.memoryPool.allocate_outcome 1 c.fresh with ⟨pool, p, he, htail, -⟩ | ⟨result, he, hno⟩
  · rw [he, htail]
  · rw [he] at hptr
    cases result with
    | error f => cases hptr
    | ok p =>
      cases hptr
      exact absurd rfl (hno ptr)

end ReadPool

/-! ## What a plain channel returns -/

namespace Channel

/-- A chunk that is shorter than the block, in a block of zeros. -/
theorem appendBlock_receive_zero {chunk : Chunk size} (hshort : chunk.bytes.length < size)
    (text : ByteString) :
    appendBlock (.ok text) ((Block.zero size).receive (.received chunk)) =
      .ok (text ++ cString chunk.bytes) := by
  have hterminated : ((Block.zero size).receive (.received chunk)).Terminated :=
    Block.terminated_receive.2 (Or.inr (Block.zero_mem_drop_zero.2 hshort))
  have hrest : (Block.zero size).bytes.drop chunk.bytes.length =
      0 :: List.replicate (size - chunk.bytes.length - 1) 0 := by
    rw [Block.zero, List.drop_replicate, ← List.replicate_succ]
    congr 1
    omega
  rw [appendBlock, if_pos hterminated]
  show Except.ok (text ++ cString (chunk.bytes ++ (Block.zero size).bytes.drop _)) = _
  rw [hrest, cString_append_zero]

/-- Chunks that are shorter than the block, from a block of zeros on. -/
theorem foldl_round_received {chunks : List (Chunk size)}
    (hshort : ∀ chunk ∈ chunks, chunk.bytes.length < size) (text : ByteString) :
    (chunks.map ReadResult.received).foldl Channel.normal.round (.zero size, .ok text) =
      (.zero size, .ok (text ++ chunks.flatMap fun chunk => cString chunk.bytes)) := by
  induction chunks generalizing text with
  | nil => simp
  | cons chunk chunks ih =>
    have hround : Channel.normal.round (.zero size, .ok text) (.received chunk) =
        (.zero size, .ok (text ++ cString chunk.bytes)) :=
      congrArg _ (appendBlock_receive_zero (hshort chunk List.mem_cons_self) text)
    rw [List.map_cons, List.foldl_cons, hround,
      ih (fun chunk' hchunk => hshort chunk' (List.mem_cons_of_mem _ hchunk)),
      List.append_assoc, List.flatMap_cons]

/-- After an append that has gone wrong, whatever chunks come. -/
theorem foldl_round_error (chunks : List (Chunk size)) (block : Block size) (f : Fault) :
    ((chunks.map ReadResult.received).foldl Channel.normal.round (block, .error f)).2 =
      .error f := by
  induction chunks generalizing block with
  | nil => rfl
  | cons chunk chunks ih => exact ih (.zero size)

/-- The message of a plain channel: the first chunk is read with whatever there was in the
block. -/
theorem message_normal {block : Block size} {chunk : Chunk size} {chunks : List (Chunk size)}
    (hshort : ∀ chunk ∈ chunks, chunk.bytes.length < size) :
    (Channel.normal.loop block
        ((chunk :: chunks).map ReadResult.received ++ [.failed 0])).message =
      (appendBlock (.ok []) (block.receive (.received chunk))).map
        (· ++ chunks.flatMap fun chunk => cString chunk.bytes) := by
  have hgoes : ∀ result ∈ (chunk :: chunks).map ReadResult.received,
      Channel.normal.ends result = false := by
    intro result hresult
    obtain ⟨chunk, -, rfl⟩ := List.mem_map.1 hresult
    rfl
  rw [loop_eq, Rounds.consumed_append hgoes, List.foldl_append, List.map_cons, List.foldl_cons]
  show ((chunks.map ReadResult.received).foldl Channel.normal.round
    (.zero size, appendBlock (.ok []) (block.receive (.received chunk)))).2 = _
  cases appendBlock (.ok []) (block.receive (.received chunk)) with
  | error f => exact foldl_round_error chunks _ f
  | ok text =>
    rw [foldl_round_received hshort]
    rfl

/-- An appended block has no NUL in the message. -/
theorem zero_notMem_text {block : Block size} {text : ByteString}
    (h : appendBlock (.ok []) block = .ok text) : 0 ∉ text := by
  rw [appendBlock] at h
  split_ifs at h
  cases h
  exact zero_notMem_cString _

/-- The first chunk is appended as it came when it has no NUL and one stands behind it. -/
theorem appendBlock_receive_eq_iff {block : Block size} {chunk : Chunk size}
    (hshort : chunk.bytes.length < size) (hnul : 0 ∉ chunk.bytes) :
    appendBlock (.ok []) (block.receive (.received chunk)) = .ok chunk.bytes ↔
      block.bytes[chunk.bytes.length]? = some 0 := by
  have hlt : chunk.bytes.length < block.bytes.length := block.length_eq.symm ▸ hshort
  show (if 0 ∈ chunk.bytes ++ block.bytes.drop chunk.bytes.length then
    Except.ok ([] ++ cString (chunk.bytes ++ block.bytes.drop chunk.bytes.length))
    else .error Fault.outOfBounds) = .ok chunk.bytes ↔ _
  rw [List.drop_eq_getElem_cons hlt, List.getElem?_eq_getElem hlt, Option.some.injEq]
  by_cases hbyte : block.bytes[chunk.bytes.length] = 0
  · rw [hbyte, if_pos (List.mem_append_right _ List.mem_cons_self), cString_append_zero,
      cString_of_notMem hnul]
    exact iff_of_true rfl rfl
  · refine iff_of_false (fun h => ?_) hbyte
    split_ifs at h
    rw [Except.ok.injEq, List.nil_append, cString_append hnul, cString,
      List.takeWhile_cons_of_pos (by simpa using hbyte), List.append_right_eq_self] at h
    cases h

/-- Nothing but what was received is in the message exactly when no NUL was received and, if
anything was, a NUL stands in the block behind the first chunk. -/
theorem message_normal_eq_iff {block : Block size} {chunks : List (Chunk size)}
    (hshort : ∀ chunk ∈ chunks, chunk.bytes.length < size) :
    (Channel.normal.loop block (chunks.map ReadResult.received ++ [.failed 0])).message =
        .ok (chunks.flatMap Chunk.bytes) ↔
      (∀ chunk ∈ chunks, 0 ∉ chunk.bytes) ∧
        ∀ chunk ∈ chunks.head?, block.bytes[chunk.bytes.length]? = some 0 := by
  cases chunks with
  | nil => exact iff_of_true rfl ⟨nofun, nofun⟩
  | cons chunk chunks =>
    obtain ⟨hfirst, hrest⟩ := List.forall_mem_cons.1 hshort
    rw [message_normal hrest, List.flatMap_cons, List.forall_mem_cons]
    constructor
    · intro h
      cases happend : appendBlock (.ok []) (block.receive (.received chunk)) with
      | error f =>
        rw [happend] at h
        cases h
      | ok text =>
        rw [happend] at h
        have htext : text ++ chunks.flatMap (fun chunk => cString chunk.bytes) =
            chunk.bytes ++ chunks.flatMap Chunk.bytes := Except.ok.inj h
        -- no C string has a NUL, so none was received, and what is left to compare is the first
        have hno : 0 ∉ chunk.bytes ++ chunks.flatMap Chunk.bytes := by
          rw [← htext, List.mem_append, List.mem_flatMap]
          rintro (hmem | ⟨chunk', -, hmem⟩)
          · exact zero_notMem_text happend hmem
          · exact zero_notMem_cString _ hmem
        rw [List.mem_append, List.mem_flatMap, not_or] at hno
        have hnuls : ∀ chunk' ∈ chunks, 0 ∉ chunk'.bytes :=
          fun chunk' hchunk hmem => hno.2 ⟨chunk', hchunk, hmem⟩
        rw [List.flatMap_congr fun chunk' hchunk => cString_of_notMem (hnuls chunk' hchunk)]
          at htext
        rw [List.append_cancel_right htext] at happend
        refine ⟨⟨hno.1, hnuls⟩, fun chunk' hhead => ?_⟩
        cases hhead
        exact (appendBlock_receive_eq_iff hfirst hno.1).1 happend
    · rintro ⟨⟨hnul, hnuls⟩, hhead⟩
      rw [(appendBlock_receive_eq_iff hfirst hnul).2 (hhead chunk rfl)]
      show Except.ok (chunk.bytes ++ _) = _
      rw [List.flatMap_congr fun chunk hchunk => cString_of_notMem (hnuls chunk hchunk)]

end Channel

namespace ReadPool

/-- The call returns the chunks, and the pool has as many blocks to hand out as before, or the
one that had to be allocated. -/
structure ReadsExactly (s : ReadPool size) (c : ReadCall size) (chunks : List (Chunk size)) :
    Prop where
  message : (s.read .normal c).2 = .ok (chunks.flatMap Chunk.bytes)
  available : (s.read .normal c).1.memoryPool.available =
    if s.memoryPool.blocks = [] then s.memoryPool.available + 1 else s.memoryPool.available

/-- The call in which these chunks are received, and then nothing more for now. -/
def callOf (fresh : Addr) (contents : Block size) (chunks : List (Chunk size)) : ReadCall size :=
  ⟨fresh, contents, chunks.map .received ++ [.failed 0]⟩

theorem returns_callOf (fresh : Addr) (contents : Block size) (chunks : List (Chunk size)) :
    (callOf fresh contents chunks).Returns .normal :=
  List.any_eq_true.2 ⟨.failed 0, List.mem_append_right _ List.mem_cons_self, rfl⟩

theorem available_read {channel : Channel} {s : ReadPool size} {c : ReadCall size} {ptr : Addr}
    (hptr : s.obtained c.fresh = some ptr) (hreturns : c.Returns channel) :
    (s.read channel c).1.memoryPool.available =
      if s.memoryPool.blocks = [] then s.memoryPool.available + 1
      else s.memoryPool.available := by
  rw [MemoryPool.available, MemoryPool.available, blocks_read hptr hreturns]
  cases hblocks : s.memoryPool.blocks with
  | nil => rfl
  | cons p blocks => rfl

theorem readsExactly_iff_message {s : ReadPool size} {fresh ptr : Addr} {contents : Block size}
    {chunks : List (Chunk size)} (hptr : s.obtained fresh = some ptr) :
    ReadsExactly s (callOf fresh contents chunks) chunks ↔
      (Channel.normal.loop (s.initial (callOf fresh contents chunks) ptr)
          (chunks.map ReadResult.received ++ [.failed 0])).message =
        .ok (chunks.flatMap Chunk.bytes) := by
  have hreturns := returns_callOf fresh contents chunks
  have hread := @read_eq _ _ s (callOf fresh contents chunks) _ hptr hreturns
  constructor
  · intro h
    have hmessage := h.message
    rw [hread] at hmessage
    exact hmessage
  · intro h
    refine ⟨?_, available_read hptr hreturns⟩
    rw [hread]
    exact h

/-- **When `NormalChannel::Read` returns exactly what was received**: there is no NUL in it, and
the block has one right behind the first chunk.  The number of blocks is right in any case. -/
theorem readsExactly_iff {s : ReadPool size} {fresh ptr : Addr} {contents : Block size}
    {chunks : List (Chunk size)} (hptr : s.obtained fresh = some ptr)
    (hshort : ∀ chunk ∈ chunks, chunk.bytes.length < size) :
    (s.read .normal (callOf fresh contents chunks)).1.memoryPool.available =
        (if s.memoryPool.blocks = [] then s.memoryPool.available + 1
          else s.memoryPool.available) ∧
      (ReadsExactly s (callOf fresh contents chunks) chunks ↔
        (∀ chunk ∈ chunks, 0 ∉ chunk.bytes) ∧
          ∀ chunk ∈ chunks.head?,
            (s.initial (callOf fresh contents chunks) ptr).bytes[chunk.bytes.length]? = some 0) :=
  ⟨available_read hptr (returns_callOf fresh contents chunks),
    (readsExactly_iff_message hptr).trans (Channel.message_normal_eq_iff hshort)⟩

/-- A chunk of some bytes, in a block of a plain channel. -/
def chunkOf (bytes : ByteString) (h : bytes.length ≤ 1024) : Chunk Channel.normal.blockSize :=
  ⟨bytes, h⟩

/-- Two chunks, with a block of zeros. -/
theorem readsExactly_iff_two :
    ReadsExactly (new .normal [1, 2, 3, 4, 5] fun _ => .zero _)
      (callOf 6 (.zero _) [chunkOf (bytes "a") (by decide), chunkOf (bytes "b") (by decide)])
      [chunkOf (bytes "a") (by decide), chunkOf (bytes "b") (by decide)] := by
  have hptr : (new .normal [1, 2, 3, 4, 5] fun _ => .zero _).obtained 6 = some 5 := rfl
  refine (readsExactly_iff hptr ?_).2.2 ⟨by decide, ?_⟩
  · decide
  · rintro chunk hchunk
    cases hchunk
    rfl

/-- A NUL among the bytes received; and a block that holds an `A` behind them. -/
theorem not_readsExactly :
    ¬ ReadsExactly (new .normal [1, 2, 3, 4, 5] fun _ => .zero _)
        (callOf 6 (.zero _) [chunkOf [97, 0, 98] (by decide)]) [chunkOf [97, 0, 98] (by decide)] ∧
      ¬ ReadsExactly
        (new .normal [1, 2, 3, 4, 5] fun _ => ⟨List.replicate 1024 65, List.length_replicate⟩)
        (callOf 6 (.zero _) [chunkOf [97] (by decide)]) [chunkOf [97] (by decide)] := by
  constructor
  · intro h
    have hptr : (new .normal [1, 2, 3, 4, 5] fun _ => .zero _).obtained 6 = some 5 := rfl
    have hmessage := (readsExactly_iff_message hptr).1 h
    rw [Channel.message_normal_eq_iff (by decide)] at hmessage
    exact hmessage.1 _ List.mem_cons_self (by decide)
  · intro h
    have hptr : (new .normal [1, 2, 3, 4, 5] fun _ => ⟨List.replicate 1024 65,
      List.length_replicate⟩).obtained 6 = some 5 := rfl
    have hmessage := (readsExactly_iff_message hptr).1 h
    rw [Channel.message_normal_eq_iff (by decide)] at hmessage
    have hbyte : some (65 : UInt8) = some 0 := hmessage.2 _ rfl
    exact absurd hbyte (by decide)

/-- A plain channel hands `OnClientMessage` the bytes of its client, if these are not the first
on a new block, and have no NUL among them. -/
theorem handleMessageEvent_read {s : ReadPool size} {fresh ptr : Addr} {contents : Block size}
    {chunks : List (Chunk size)} (hptr : s.obtained fresh = some ptr)
    (hzero : s.initial (callOf fresh contents chunks) ptr = .zero size)
    (hshort : ∀ chunk ∈ chunks, chunk.bytes.length < size)
    (hnul : ∀ chunk ∈ chunks, 0 ∉ chunk.bytes) (hne : chunks.flatMap Chunk.bytes ≠ [])
    {H : Type} (server : ServerState H) (ctx : Addr) (a : MessageAnswer H)
    (hread : a.read = (s.read .normal (callOf fresh contents chunks)).2) :
    server.handleMessageEvent ctx a =
      server.onClientMessage ctx (chunks.flatMap Chunk.bytes) a := by
  have hbehind : ∀ chunk ∈ chunks.head?,
      (Block.zero size).bytes[chunk.bytes.length]? = some 0 := by
    intro chunk hhead
    have hlt := hshort chunk (List.mem_of_mem_head? hhead)
    rw [Block.zero, List.getElem?_replicate, if_pos hlt]
  have hmessage := (Channel.message_normal_eq_iff hshort).2 ⟨hnul, hbehind⟩
  rw [← hzero] at hmessage
  rw [ServerState.handleMessageEvent, hread, ((readsExactly_iff_message hptr).2 hmessage).message]
  exact if_neg hne

/-! ## No leakage -/

/-- The blocks that were given back are in the pool, and all zero. -/
def Clean (s : ReadPool size) : Prop :=
  ∀ ptr ∈ s.used, ptr ∈ s.memoryPool.blocks ∧ s.memory ptr = .zero size

theorem fst_foldl_round (channel : Channel) (results : List (ReadResult size))
    (message : Except Fault ByteString) :
    (results.foldl channel.round (.zero size, message)).1 = .zero size := by
  induction results generalizing message with
  | nil => rfl
  | cons result results ih => exact ih _

theorem clean_new (channel : Channel) (blocks : List Addr)
    (memory : Addr → Block channel.blockSize) : Clean (new channel blocks memory) := nofun

/-- A loop that has ended has set its block to zero. -/
theorem block_loop {channel : Channel} {block : Block size} {results : List (ReadResult size)}
    (h : results.any channel.ends = true) : (channel.loop block results).block = .zero size := by
  rw [Channel.loop_eq]
  cases results with
  | nil => cases h
  | cons result results => exact fst_foldl_round channel _ _

/-- **A `Read` that returns keeps the used blocks zero**, and so does one that gets no block. -/
theorem clean_read {channel : Channel} {s : ReadPool size} (hs : Clean s) {c : ReadCall size}
    (hreturns : c.Returns channel) : Clean (s.read channel c).1 := by
  rcases s.memoryPool.allocate_outcome 1 c.fresh with ⟨pool, p, he, -, hp⟩ | ⟨result, he, hno⟩
  · have hptr : s.obtained c.fresh = some p := by
      rw [obtained, he]
      rfl
    intro ptr hused
    rw [blocks_read hptr hreturns]
    rw [read_eq hptr hreturns] at hused ⊢
    by_cases heq : ptr = p
    · subst heq
      refine ⟨List.mem_cons_self, ?_⟩
      show Function.update s.memory ptr _ ptr = _
      rw [Function.update_self, block_loop hreturns]
    · obtain ⟨hmem, hzero⟩ := hs ptr ((List.mem_cons.1 hused).resolve_left heq)
      obtain ⟨hblocks, -⟩ | hblocks := hp
      · rw [hblocks] at hmem
        cases hmem
      · rw [hblocks] at hmem
        refine ⟨hmem, ?_⟩
        show Function.update s.memory p _ ptr = _
        rw [Function.update_of_ne heq, hzero]
  · rw [read, he]
    match result with
    | .error f => exact hs
    | .ok none => exact hs
    | .ok (some ptr) => exact absurd rfl (hno ptr)

/-- The used blocks are zero after every run of `Read`s that return. -/
theorem clean_run {channel : Channel} {s : ReadPool size} (hs : Clean s)
    {calls : List (ReadCall size)} (hreturns : ∀ c ∈ calls, c.Returns channel) :
    Clean (Service.run (read channel) s calls) := by
  induction calls generalizing s with
  | nil => exact hs
  | cons c calls ih =>
    exact ih (clean_read hs (hreturns c List.mem_cons_self)) fun c' hc =>
      hreturns c' (List.mem_cons_of_mem _ hc)

/-- The call gets a block that an earlier one has given back. -/
def GetsUsed (s : ReadPool size) (c : ReadCall size) : Prop :=
  ∃ ptr ∈ s.used, s.obtained c.fresh = some ptr

/-- A used block is zero when a `Read` gets it. -/
theorem initial_of_used {s : ReadPool size} (hs : Clean s) (c : ReadCall size) {ptr : Addr}
    (hused : ptr ∈ s.used) : s.initial c ptr = .zero size := by
  obtain ⟨hmem, hzero⟩ := hs ptr hused
  rw [initial, if_neg (List.ne_nil_of_mem hmem), hzero]

/-- From a block of zeros on, chunks that are shorter than the block stay inside it. -/
theorem inside_loop_zero (hsize : 0 < size) (channel : Channel) {results : List (ReadResult size)}
    (hshort : ∀ chunk, .received chunk ∈ results → chunk.bytes.length < size) :
    Inside (channel.loop (.zero size) results).message := by
  have hfits : ∀ result ∈ results, Channel.LaterFits result := by
    intro result hresult
    cases result with
    | received chunk => exact Or.inr (hshort chunk hresult)
    | failed n => trivial
  refine (Channel.inside_loop hsize channel _ results).2
    ⟨fun result hhead => ?_, fun result htail => ?_⟩
  · exact (Channel.firstFits_zero hsize).2 (hfits result (List.mem_of_mem_head? hhead))
  · exact hfits result (Rounds.mem_of_mem_consumed (List.mem_of_mem_tail htail))

/-- What a `Read` on a used block returns depends on its results alone. -/
theorem read_of_used {channel : Channel} {s : ReadPool size} (hs : Clean s) {c : ReadCall size}
    (hreturns : c.Returns channel) (hused : s.GetsUsed c) :
    (s.read channel c).2 = (channel.loop (.zero size) c.results).message := by
  obtain ⟨ptr, hmem, hptr⟩ := hused
  rw [read_eq hptr hreturns, initial_of_used hs c hmem]

/-- The pool of a channel after some calls of `Read`. -/
def after (channel : Channel) (blocks : List Addr) (memory : Addr → Block channel.blockSize)
    (calls : List (ReadCall channel.blockSize)) : ReadPool channel.blockSize :=
  Service.run (read channel) (new channel blocks memory) calls

/-- **No leakage through the pool.**  After any two runs of `Read`s, all used blocks are zero,
and a `Read` that gets one of them returns a message, which is the same in both runs when the
results are, whatever the earlier `Read`s received. -/
theorem no_leakage {channel : Channel} {blocks blocks' : List Addr}
    {memory memory' : Addr → Block channel.blockSize}
    {calls calls' : List (ReadCall channel.blockSize)} {c c' : ReadCall channel.blockSize}
    (hcalls : ∀ c ∈ calls, c.Returns channel) (hcalls' : ∀ c ∈ calls', c.Returns channel)
    (hresults : c'.results = c.results) (hreturns : c.Returns channel)
    (hshort : ∀ chunk, .received chunk ∈ c.results → chunk.bytes.length < channel.blockSize)
    (hused : (after channel blocks memory calls).GetsUsed c)
    (hused' : (after channel blocks' memory' calls').GetsUsed c') :
    Clean (after channel blocks memory calls) ∧ Clean (after channel blocks' memory' calls') ∧
      ∃ message, ((after channel blocks memory calls).read channel c).2 = .ok message ∧
        ((after channel blocks' memory' calls').read channel c').2 = .ok message := by
  have hclean : Clean (after channel blocks memory calls) :=
    clean_run (clean_new channel blocks memory) hcalls
  have hclean' : Clean (after channel blocks' memory' calls') :=
    clean_run (clean_new channel blocks' memory') hcalls'
  have hreturns' : c'.Returns channel := by rwa [ReadCall.Returns, hresults]
  obtain ⟨message, hmessage⟩ := inside_loop_zero channel.blockSize_pos channel hshort
  refine ⟨hclean, hclean', message, ?_, ?_⟩
  · rw [read_of_used hclean hreturns hused, hmessage]
  · rw [read_of_used hclean' hreturns' hused', hresults, hmessage]

/-- What another client sent last, or the first contents of the block, makes no difference. -/
theorem no_leakage_two :
    ∃ message,
      ((after .normal [5] (fun _ => .zero _)
        [callOf 6 (.zero _) [chunkOf (bytes "secret") (by decide)]]).read .normal
          (callOf 6 (.zero _) [chunkOf (bytes "a") (by decide)])).2 = .ok message ∧
      ((after .normal [5] (fun _ => ⟨List.replicate 1024 65, List.length_replicate⟩)
        [callOf 6 (.zero _) []]).read .normal
          (callOf 6 (.zero _) [chunkOf (bytes "a") (by decide)])).2 = .ok message := by
  refine (no_leakage (fun c hc => ?_) (fun c hc => ?_) rfl (returns_callOf ..) ?_
    ⟨5, List.mem_cons_self, rfl⟩ ⟨5, List.mem_cons_self, rfl⟩).2.2
  · rw [List.mem_singleton.1 hc]
    exact returns_callOf ..
  · rw [List.mem_singleton.1 hc]
    exact returns_callOf ..
  · intro chunk hchunk
    rcases List.mem_cons.1 hchunk with h | h
    · cases h
      decide
    · cases h with
      | tail _ h => cases h

end ReadPool

end WebServer
