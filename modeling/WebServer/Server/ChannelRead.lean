import WebServer.Library.Rounds
import WebServer.Server.Basic

/-!
# The loops of `Read`

Both channels read into a block of their pool, append the block to the message as a C string
and set it to zero, until a result of `recv` or `tls_read` ends the loop.  They differ in what
ends it, and in what they do with a negative result.

* `NormalRead`, `SecureRead` — the two loops.
* `Channel.loop_eq` — both are the same fold, with two parameters.
* `Channel.reads_inside_iff` — when every append ends inside the block.
* `Channel.reads_exit_iff` — when the loops end.
-/

namespace WebServer

/-! ## Blocks -/

/-- The memory of a block. -/
structure Block (size : ℕ) where
  bytes : ByteString
  length_eq : bytes.length = size

/-- Bytes that a block has room for. -/
structure Chunk (size : ℕ) where
  bytes : ByteString
  length_le : bytes.length ≤ size

/-- What `recv` or `tls_read`, asked for a block, comes to: some bytes, or `-(n + 1)`. -/
inductive ReadResult (size : ℕ)
  | received (chunk : Chunk size)
  | failed (n : ℕ)

variable {size : ℕ}

/-- What the call returns. -/
def ReadResult.value : ReadResult size → ℤ
  | .received chunk => chunk.bytes.length
  | .failed n => Int.negSucc n

namespace Block

/-- What the call does to the block: the bytes behind those received stay as they are. -/
def receive (block : Block size) : ReadResult size → Block size
  | .received chunk =>
    ⟨chunk.bytes ++ block.bytes.drop chunk.bytes.length, by
      rw [List.length_append, List.length_drop, block.length_eq]
      exact Nat.add_sub_cancel' chunk.length_le⟩
  | .failed _ => block

/-- `memset(block, 0, BlockSize())`. -/
def zero (size : ℕ) : Block size := ⟨List.replicate size 0, List.length_replicate⟩

/-- There is a NUL in the block. -/
def Terminated (block : Block size) : Prop := 0 ∈ block.bytes

instance (block : Block size) : Decidable block.Terminated :=
  inferInstanceAs (Decidable (_ ∈ _))

theorem terminated_receive {block : Block size} {chunk : Chunk size} :
    (block.receive (.received chunk)).Terminated ↔
      0 ∈ chunk.bytes ∨ 0 ∈ block.bytes.drop chunk.bytes.length :=
  List.mem_append

theorem zero_mem_drop_zero {n : ℕ} : 0 ∈ (zero size).bytes.drop n ↔ n < size := by
  rw [zero, List.drop_replicate, List.mem_replicate, Nat.sub_ne_zero_iff_lt]
  exact and_iff_left rfl

end Block

/-- `message.append(block)`.  Without a NUL in the block it reads on behind the block; what the
message is then, nobody knows, but neither loop looks at it. -/
def appendBlock (message : Except Fault ByteString) (block : Block size) :
    Except Fault ByteString :=
  match message with
  | .error f => .error f
  | .ok text =>
    if block.Terminated then .ok (text ++ cString block.bytes) else .error .outOfBounds

/-- All appends so far have found their NUL inside the block. -/
def Inside (message : Except Fault ByteString) : Prop := ∃ text, message = .ok text

theorem inside_appendBlock {message : Except Fault ByteString} {block : Block size} :
    Inside (appendBlock message block) ↔ Inside message ∧ block.Terminated := by
  cases message with
  | error f => exact ⟨nofun, fun h => nomatch h.1⟩
  | ok text =>
    rw [appendBlock]
    by_cases hblock : block.Terminated
    · rw [if_pos hblock]
      exact ⟨fun _ => ⟨⟨text, rfl⟩, hblock⟩, fun _ => ⟨_, rfl⟩⟩
    · rw [if_neg hblock]
      exact ⟨nofun, fun h => absurd h.2 hblock⟩

/-! ## The loop of `NormalChannel::Read` -/

/-- The variables of the loop; `totalReadBytes`, which is only traced, is left out. -/
structure NormalRead (size : ℕ) where
  readStream : Block size
  fullBufferedRequest : Except Fault ByteString
  finishedReceivingData : Bool

namespace NormalRead

/-- Before the first round. -/
def start (readStream : Block size) : NormalRead size := ⟨readStream, .ok [], false⟩

/-- A round. -/
def body (s : NormalRead size) (result : ReadResult size) : NormalRead size :=
  let lastReadBytes := result.value
  let readStream := s.readStream.receive result
  let fullBufferedRequest :=
    if 0 ≤ lastReadBytes then appendBlock s.fullBufferedRequest readStream
    else s.fullBufferedRequest
  let finishedReceivingData := if lastReadBytes = -1 then true else s.finishedReceivingData
  ⟨.zero size, fullBufferedRequest, finishedReceivingData⟩

/-- The block and the message. -/
def view (s : NormalRead size) : Block size × Except Fault ByteString :=
  (s.readStream, s.fullBufferedRequest)

end NormalRead

/-! ## The loop of `SecureChannel::Read` -/

/-- `TLS_WANT_POLLIN`. -/
def tlsWantPollin : ℤ := -2

/-- The variables of the loop. -/
structure SecureRead (size : ℕ) where
  totalReadBytes : ℤ
  lastReadBytes : ℤ
  readStream : Block size
  fullBufferedRequest : Except Fault ByteString

namespace SecureRead

/-- Before the first round. -/
def start (readStream : Block size) : SecureRead size := ⟨0, tlsWantPollin, readStream, .ok []⟩

/-- The condition of the loop is false. -/
def done (s : SecureRead size) : Bool :=
  !decide (s.lastReadBytes = tlsWantPollin ∧ s.totalReadBytes = 0)

/-- A round. -/
def body (s : SecureRead size) (result : ReadResult size) : SecureRead size :=
  let lastReadBytes := result.value
  let readStream := s.readStream.receive result
  let totalReadBytes :=
    if 0 ≤ lastReadBytes then s.totalReadBytes + lastReadBytes else s.totalReadBytes
  ⟨totalReadBytes, lastReadBytes, .zero size, appendBlock s.fullBufferedRequest readStream⟩

/-- The block and the message. -/
def view (s : SecureRead size) : Block size × Except Fault ByteString :=
  (s.readStream, s.fullBufferedRequest)

end SecureRead

/-! ## Both loops -/

namespace Channel

/-- `BlockSize()` of the pool of the channel. -/
def blockSize : Channel → ℕ
  | .normal => 1024
  | .secure => 4096

theorem blockSize_pos (channel : Channel) : 0 < channel.blockSize := by
  cases channel <;> decide

/-- What a loop leaves, and whether it has ended. -/
structure Loop (size : ℕ) where
  block : Block size
  message : Except Fault ByteString
  ended : Bool

/-- The loop of `Read`, from a block and the results of its calls on. -/
def loop (channel : Channel) (block : Block size) (results : List (ReadResult size)) :
    Loop size :=
  match channel with
  | .normal =>
    let s := Rounds.rounds NormalRead.finishedReceivingData NormalRead.body (.start block) results
    ⟨s.readStream, s.fullBufferedRequest, s.finishedReceivingData⟩
  | .secure =>
    let s := Rounds.rounds SecureRead.done SecureRead.body (.start block) results
    ⟨s.readStream, s.fullBufferedRequest, s.done⟩

/-- Does the channel append the block after this result? -/
def appends : Channel → ReadResult size → Bool
  | .normal, .received _ => true
  | .normal, .failed _ => false
  | .secure, _ => true

/-- Is this the last result that the loop asks for? -/
def ends : Channel → ReadResult size → Bool
  | .normal, .received _ => false
  | .normal, .failed n => n == 0
  | .secure, .received _ => true
  | .secure, .failed n => n != 1

/-- A round of either loop, as far as block and message go. -/
def round (channel : Channel) (v : Block size × Except Fault ByteString)
    (result : ReadResult size) : Block size × Except Fault ByteString :=
  (.zero size, if channel.appends result then appendBlock v.2 (v.1.receive result) else v.2)

theorem view_normal_body (s : NormalRead size) (result : ReadResult size) :
    (s.body result).view = Channel.normal.round s.view result := by
  cases result with
  | received chunk =>
    simp [NormalRead.body, NormalRead.view, round, appends, ReadResult.value]
  | failed n =>
    simp [NormalRead.body, NormalRead.view, round, appends, ReadResult.value]

theorem view_secure_body (s : SecureRead size) (result : ReadResult size) :
    (s.body result).view = Channel.secure.round s.view result := rfl

theorem decides_normal : Rounds.Decides (@NormalRead.finishedReceivingData size)
    NormalRead.body Channel.normal.ends := by
  intro s result hs
  rw [NormalRead.body, hs]
  cases result with
  | received chunk =>
    show (if (chunk.bytes.length : ℤ) = -1 then true else false) = false
    rw [if_neg (by omega)]
  | failed n =>
    show (if Int.negSucc n = -1 then true else false) = (n == 0)
    cases n <;> rfl

theorem decides_secure : Rounds.Decides (@SecureRead.done size)
    SecureRead.body Channel.secure.ends := by
  intro s result hs
  simp only [SecureRead.done, Bool.not_eq_false', decide_eq_true_eq] at hs
  rw [SecureRead.done, SecureRead.body, hs.2]
  cases result with
  | received chunk =>
    have hvalue : (ReadResult.received chunk).value ≠ tlsWantPollin := by
      show (chunk.bytes.length : ℤ) ≠ -2
      omega
    simp [hvalue, ends]
  | failed n =>
    show (!decide (Int.negSucc n = Int.negSucc 1 ∧ (0 : ℤ) = 0)) = (n != 1)
    have hiff : Int.negSucc n = Int.negSucc 1 ∧ (0 : ℤ) = 0 ↔ n = 1 := by
      rw [Int.negSucc_inj, eq_self, and_true]
    rw [decide_eq_decide.2 hiff]
    rfl

/-- **Both loops are folds**, over the results down to the one that ends them. -/
theorem loop_eq (channel : Channel) (block : Block size) (results : List (ReadResult size)) :
    channel.loop block results =
      ⟨((Rounds.consumed channel.ends results).foldl channel.round (block, .ok [])).1,
        ((Rounds.consumed channel.ends results).foldl channel.round (block, .ok [])).2,
        results.any channel.ends⟩ := by
  cases channel with
  | normal =>
    have hview := decides_normal.view_rounds (s := .start block) view_normal_body rfl results
    rw [loop, decides_normal.done_rounds (s := .start block) rfl]
    exact congrArg (fun v : Block size × Except Fault ByteString =>
      (⟨v.1, v.2, results.any Channel.normal.ends⟩ : Loop size)) hview
  | secure =>
    have hview := decides_secure.view_rounds (s := .start block) view_secure_body rfl results
    rw [loop, decides_secure.done_rounds (s := .start block) rfl]
    exact congrArg (fun v : Block size × Except Fault ByteString =>
      (⟨v.1, v.2, results.any Channel.secure.ends⟩ : Loop size)) hview

/-! ## Inside the block -/

/-- The first result leaves a NUL in the block, if the block is appended after it. -/
def FirstFits (channel : Channel) (block : Block size) : ReadResult size → Prop
  | .received chunk => 0 ∈ chunk.bytes ∨ 0 ∈ block.bytes.drop chunk.bytes.length
  | .failed _ => channel = .secure → 0 ∈ block.bytes

/-- A later one does, which comes into a block of zeros. -/
def LaterFits : ReadResult size → Prop
  | .received chunk => 0 ∈ chunk.bytes ∨ chunk.bytes.length < size
  | .failed _ => True

theorem inside_round {channel : Channel} {v : Block size × Except Fault ByteString}
    {result : ReadResult size} :
    Inside (channel.round v result).2 ↔ Inside v.2 ∧ channel.FirstFits v.1 result := by
  cases result with
  | received chunk =>
    have happends : channel.appends (.received chunk) = true := by cases channel <;> rfl
    rw [round, if_pos happends, inside_appendBlock, Block.terminated_receive, FirstFits]
  | failed n =>
    cases channel with
    | normal => exact (and_iff_left nofun).symm
    | secure =>
      show Inside (appendBlock v.2 v.1) ↔ _
      rw [inside_appendBlock]
      exact and_congr_right fun _ => ⟨fun h _ => h, fun h => h rfl⟩

theorem firstFits_zero (hsize : 0 < size) {channel : Channel} {result : ReadResult size} :
    channel.FirstFits (.zero size) result ↔ LaterFits result := by
  cases result with
  | received chunk => rw [FirstFits, LaterFits, Block.zero_mem_drop_zero]
  | failed n =>
    have hzero : 0 ∈ (Block.zero size).bytes.drop 0 := Block.zero_mem_drop_zero.2 hsize
    exact iff_of_true (fun _ => hzero) trivial

theorem inside_foldl_round (hsize : 0 < size) {channel : Channel}
    (results : List (ReadResult size)) (message : Except Fault ByteString) :
    Inside (results.foldl channel.round (.zero size, message)).2 ↔
      Inside message ∧ ∀ result ∈ results, LaterFits result := by
  induction results generalizing message with
  | nil => simp
  | cons result results ih =>
    rw [List.foldl_cons]
    show Inside (results.foldl channel.round (.zero size, (channel.round _ result).2)).2 ↔ _
    rw [ih, inside_round, firstFits_zero hsize, List.forall_mem_cons, and_assoc]

/-- When all appends of a loop are inside the block. -/
theorem inside_loop (hsize : 0 < size) (channel : Channel) (block : Block size)
    (results : List (ReadResult size)) :
    Inside (channel.loop block results).message ↔
      (∀ result ∈ results.head?, channel.FirstFits block result) ∧
        ∀ result ∈ (Rounds.consumed channel.ends results).tail, LaterFits result := by
  rw [loop_eq]
  cases results with
  | nil => exact iff_of_true ⟨[], rfl⟩ ⟨nofun, nofun⟩
  | cons result results =>
    rw [Rounds.consumed, List.foldl_cons]
    show Inside (List.foldl channel.round (.zero size, (channel.round _ result).2) _).2 ↔ _
    rw [inside_foldl_round hsize, inside_round, List.tail_cons]
    have hstart : Inside (.ok []) := ⟨[], rfl⟩
    simp [hstart]

/-- **When reads stay inside the block**: the first result, which comes into whatever there was
in the block, leaves a NUL there, and every later one that the loop takes has a NUL or is
shorter than the block. -/
theorem reads_inside_iff (channel : Channel) (block : Block channel.blockSize)
    (results : List (ReadResult channel.blockSize)) :
    Inside (channel.loop block results).message ↔
      (∀ result ∈ results.head?, channel.FirstFits block result) ∧
        ∀ result ∈ (Rounds.consumed channel.ends results).tail, LaterFits result :=
  inside_loop channel.blockSize_pos channel block results

/-- A client fills the block; and a client on a secure channel keeps silent, and so leaves to
be appended what there was in the block. -/
theorem not_reads_inside :
    ¬ Inside (Channel.normal.loop (.zero Channel.normal.blockSize)
        [.received ⟨List.replicate 1024 65, List.length_replicate.le⟩]).message ∧
      ¬ Inside (@Channel.loop Channel.secure.blockSize .secure
        ⟨List.replicate 4096 65, List.length_replicate⟩ [.failed 1]).message := by
  constructor
  · intro h
    rw [inside_loop (by decide)] at h
    obtain hchunk | hrest := h.1 _ rfl
    · have hzero : (0 : UInt8) = 65 := List.eq_of_mem_replicate hchunk
      exact absurd hzero (by decide)
    · have hlt : (List.replicate 1024 (65 : UInt8)).length < 1024 :=
        Block.zero_mem_drop_zero.1 hrest
      rw [List.length_replicate] at hlt
      exact absurd hlt (lt_irrefl _)
  · intro h
    rw [inside_loop (by decide)] at h
    have hzero : (0 : UInt8) = 65 := List.eq_of_mem_replicate (h.1 _ rfl rfl)
    exact absurd hzero (by decide)

/-! ## The end of the loops -/

/-- The loop of `Read` ends on the results of a stream. -/
def Exits (channel : Channel) (block : Block size) (results : Stream' (ReadResult size)) : Prop :=
  match channel with
  | .normal =>
    Rounds.Exits NormalRead.finishedReceivingData NormalRead.body (.start block) results
  | .secure => Rounds.Exits SecureRead.done SecureRead.body (.start block) results

theorem exits_iff (channel : Channel) (block : Block size) (results : Stream' (ReadResult size)) :
    channel.Exits block results ↔ ∃ i, channel.ends (results.get i) = true := by
  cases channel with
  | normal => exact decides_normal.exits_iff rfl results
  | secure => exact decides_secure.exits_iff rfl results

/-- The results a peer can cause: some chunks, and then one result for ever. -/
def peer (chunks : List (Chunk size)) (tail : ReadResult size) : Stream' (ReadResult size) :=
  fun i => (chunks[i]?.map ReadResult.received).getD tail

theorem ends_normal_iff {result : ReadResult size} :
    Channel.normal.ends result = true ↔ result = .failed 0 := by
  cases result with
  | received chunk => exact ⟨nofun, nofun⟩
  | failed n =>
    rw [ends, beq_iff_eq, ReadResult.failed.injEq]

theorem ends_secure_iff {result : ReadResult size} :
    Channel.secure.ends result = true ↔ result ≠ .failed 1 := by
  cases result with
  | received chunk => exact iff_of_true rfl nofun
  | failed n =>
    rw [ends, bne_iff_ne, ne_eq, ne_eq, ReadResult.failed.injEq]

theorem exits_normal_iff {block : Block size} {results : Stream' (ReadResult size)} :
    Channel.normal.Exits block results ↔ ∃ i, results.get i = .failed 0 := by
  simp only [exits_iff, ends_normal_iff]

theorem exits_secure_iff {block : Block size} {results : Stream' (ReadResult size)} :
    Channel.secure.Exits block results ↔ ∃ i, results.get i ≠ .failed 1 := by
  simp only [exits_iff, ends_secure_iff]

/-- A result of a peer is one of its chunks, or the one that it ends with. -/
theorem get_peer (chunks : List (Chunk size)) (tail : ReadResult size) (i : ℕ) :
    (peer chunks tail).get i = tail ∨
      ∃ chunk ∈ chunks, (peer chunks tail).get i = .received chunk := by
  show (chunks[i]?.map ReadResult.received).getD tail = tail ∨ _
  cases hi : chunks[i]? with
  | none => exact Or.inl rfl
  | some chunk =>
    refine Or.inr ⟨chunk, List.mem_of_getElem? hi, ?_⟩
    show (chunks[i]?.map ReadResult.received).getD tail = _
    rw [hi]
    rfl

/-- In the end it is the latter. -/
theorem get_peer_length (chunks : List (Chunk size)) (tail : ReadResult size) :
    (peer chunks tail).get chunks.length = tail := by
  show (chunks[chunks.length]?.map ReadResult.received).getD tail = tail
  rw [List.getElem?_eq_none le_rfl]
  rfl

/-- A plain channel gets out of the loop when its peer does not close. -/
theorem exits_normal_peer_iff {block : Block size} {chunks : List (Chunk size)}
    {tail : ReadResult size} :
    Channel.normal.Exits block (peer chunks tail) ↔ tail = .failed 0 := by
  rw [exits_normal_iff]
  constructor
  · rintro ⟨i, hi⟩
    obtain htail | ⟨chunk, -, hchunk⟩ := get_peer chunks tail i
    · exact htail.symm.trans hi
    · cases hchunk.symm.trans hi
  · intro htail
    exact ⟨chunks.length, (get_peer_length chunks tail).trans htail⟩

/-- A secure channel does when its peer sends something, or closes, or fails. -/
theorem exits_secure_peer_iff {block : Block size} {chunks : List (Chunk size)}
    {tail : ReadResult size} :
    Channel.secure.Exits block (peer chunks tail) ↔ chunks ≠ [] ∨ tail ≠ .failed 1 := by
  rw [exits_secure_iff]
  constructor
  · rintro ⟨i, hi⟩
    obtain htail | ⟨chunk, hchunk, -⟩ := get_peer chunks tail i
    · exact Or.inr (htail ▸ hi)
    · exact Or.inl (List.ne_nil_of_mem hchunk)
  · rintro (hchunks | htail)
    · obtain ⟨chunk, rest, rfl⟩ := List.exists_cons_of_ne_nil hchunks
      exact ⟨0, nofun⟩
    · exact ⟨chunks.length, (get_peer_length chunks tail).symm ▸ htail⟩

/-- **When reads end.**  A plain channel waits for the -1 of a socket that would block, and a
secure one for anything but `TLS_WANT_POLLIN`: the one never leaves its loop after an orderly
close, the other while a peer that has sent nothing keeps silent. -/
theorem reads_exit_iff (block : Block size) :
    (∀ results, Channel.normal.Exits block results ↔ ∃ i, results.get i = .failed 0) ∧
      (∀ results, Channel.secure.Exits block results ↔ ∃ i, results.get i ≠ .failed 1) ∧
      ∀ chunks tail,
        (Channel.normal.Exits block (peer chunks tail) ↔ tail = .failed 0) ∧
          (Channel.secure.Exits block (peer chunks tail) ↔ chunks ≠ [] ∨ tail ≠ .failed 1) :=
  ⟨fun _ => exits_normal_iff, fun _ => exits_secure_iff, fun _ _ =>
    ⟨exits_normal_peer_iff, exits_secure_peer_iff⟩⟩

/-- A peer that closes at once, and one that connects and says nothing. -/
theorem not_reads_exit :
    ¬ Channel.normal.Exits (.zero 1024) (peer [] (.received ⟨[], Nat.zero_le _⟩)) ∧
      ¬ Channel.secure.Exits (.zero 4096) (peer [] (.failed 1)) := by
  rw [exits_normal_peer_iff, exits_secure_peer_iff]
  exact ⟨nofun, by simp⟩

end Channel

end WebServer
