import WebServer.Runtime.Fault

/-!
# The memory pool

`MemoryPool`: fixed-size blocks that are handed out and taken back in stack order.
Next to the fields of the class the model keeps a ghost list of the blocks that
are handed out, which the code itself never looks at.

* `MemoryPool.Accounted` — the accounting invariant: no block is in two places, and
  every allocated block is free or handed out.
* `getMemory_outcome` — the four ways through `GetMemory`.
* `getMemory_cases` — what it can do when `new` succeeds: hand out a block, or find the
  pool exhausted and change nothing.
* `accounted_release` — taking a block back keeps the account.
-/

namespace WebServer

/-- The address of a block. -/
abbrev Addr := ℕ

/-- `MemoryPool`. -/
structure MemoryPool where
  blockSize : ℕ
  /-- `_max_alloc`, with 0 for a pool without limit. -/
  maxAlloc : ℕ
  /-- `_allocated`, an `int`: with a limit at most the limit or the blocks of the constructor, and
  without one it takes 2³¹ calls of `new` to overflow it. -/
  allocated : ℕ
  /-- `_blocks`, its back first. -/
  blocks : List Addr
  /-- Ghost: the blocks handed out and not yet taken back. -/
  handedOut : List Addr
  deriving DecidableEq, Repr

namespace MemoryPool

/-- The constructor, where `fresh` are the blocks its calls of `new` return. -/
def new (l_block_size : ℕ) (fresh : List Addr) (l_max_alloc : ℕ) : MemoryPool :=
  ⟨l_block_size, l_max_alloc, fresh.length, fresh.reverse, []⟩

/-- The exception of a pool that may not grow. -/
def exhausted : CppException := .runtimeError (bytes "MemoryPool exhausted.")

/-- `GetMemory`, where `fresh` is what `new char[_block_size]` gives if it is
called, and `none` if it throws. -/
def getMemory (pool : MemoryPool) (fresh : Option Addr) : MemoryPool × Except Fault Addr :=
  match pool.blocks with
  | [] =>
    if pool.maxAlloc = 0 ∨ pool.allocated < pool.maxAlloc then
      -- the counter is increased before the block is there
      let pool := { pool with allocated := pool.allocated + 1 }
      match fresh with
      | none => (pool, .error (.thrown .badAlloc))
      | some ptr => ({ pool with handedOut := ptr :: pool.handedOut }, .ok ptr)
    else (pool, .error (.thrown exhausted))
  | ptr :: blocks => ({ pool with blocks, handedOut := ptr :: pool.handedOut }, .ok ptr)

/-- `Allocate<T>`, for a type of `size` bytes; `none` is a null pointer. -/
def allocate (pool : MemoryPool) (size : ℕ) (fresh : Option Addr) :
    MemoryPool × Except Fault (Option Addr) :=
  if pool.blockSize < size then (pool, .ok none)
  else
    match pool.getMemory fresh with
    | (pool, .error f) => (pool, .error f)
    | (pool, .ok ptr) => (pool, .ok (some ptr))

/-- `Release`, where `grew` tells whether `push_back` succeeds. -/
def release (pool : MemoryPool) (ptr : Addr) (grew : Bool) : MemoryPool :=
  if grew then
    { pool with blocks := ptr :: pool.blocks, handedOut := pool.handedOut.erase ptr }
  else { pool with handedOut := pool.handedOut.erase ptr }

/-! ## The account -/

/-- Every block is in one place, and the counter counts the blocks there are. -/
structure Accounted (pool : MemoryPool) : Prop where
  nodup : (pool.blocks ++ pool.handedOut).Nodup
  allocated_eq : pool.allocated = pool.blocks.length + pool.handedOut.length
  limit : 0 < pool.maxAlloc → pool.allocated ≤ pool.maxAlloc

theorem accounted_new {l_block_size l_max_alloc : ℕ} {fresh : List Addr} (hnd : fresh.Nodup)
    (hmax : 0 < l_max_alloc → fresh.length ≤ l_max_alloc) :
    Accounted (new l_block_size fresh l_max_alloc) where
  nodup := by simpa [new] using hnd
  allocated_eq := by simp [new]
  limit := hmax

/-- The block is in use by the pool or by one of its clients. -/
def Knows (pool : MemoryPool) (ptr : Addr) : Prop := ptr ∈ pool.blocks ∨ ptr ∈ pool.handedOut

theorem not_mem_blocks_of_mem_handedOut {pool : MemoryPool} (h : Accounted pool) {ptr : Addr}
    (hp : ptr ∈ pool.handedOut) : ptr ∉ pool.blocks := fun hb =>
  (List.nodup_append.1 h.nodup).2.2 ptr hb ptr hp rfl

theorem Accounted.nodup_handedOut {pool : MemoryPool} (h : Accounted pool) :
    pool.handedOut.Nodup :=
  (List.nodup_append.1 h.nodup).2.1

/-- The four ways through `GetMemory`. -/
theorem getMemory_outcome (pool : MemoryPool) (fresh : Option Addr) :
    (∃ ptr blocks, pool.blocks = ptr :: blocks ∧
        pool.getMemory fresh =
          ({ pool with blocks, handedOut := ptr :: pool.handedOut }, .ok ptr)) ∨
      (pool.blocks = [] ∧ (pool.maxAlloc = 0 ∨ pool.allocated < pool.maxAlloc) ∧
        ∃ ptr, fresh = some ptr ∧ pool.getMemory fresh =
          ({ pool with allocated := pool.allocated + 1, handedOut := ptr :: pool.handedOut },
            .ok ptr)) ∨
      (pool.blocks = [] ∧ (pool.maxAlloc = 0 ∨ pool.allocated < pool.maxAlloc) ∧
        fresh = none ∧ pool.getMemory fresh =
          ({ pool with allocated := pool.allocated + 1 }, .error (.thrown .badAlloc))) ∨
      (pool.blocks = [] ∧ ¬ (pool.maxAlloc = 0 ∨ pool.allocated < pool.maxAlloc) ∧
        pool.getMemory fresh = (pool, .error (.thrown exhausted))) := by
  rw [getMemory]
  cases hb : pool.blocks with
  | cons ptr blocks => exact Or.inl ⟨ptr, blocks, rfl, rfl⟩
  | nil =>
    by_cases hroom : pool.maxAlloc = 0 ∨ pool.allocated < pool.maxAlloc
    · cases fresh with
      | some ptr => exact Or.inr (Or.inl ⟨rfl, hroom, ptr, rfl, if_pos hroom⟩)
      | none => exact Or.inr (Or.inr (Or.inl ⟨rfl, hroom, rfl, if_pos hroom⟩))
    · exact Or.inr (Or.inr (Or.inr ⟨rfl, hroom, if_neg hroom⟩))

/-- **What `GetMemory` does** when `new` succeeds: it hands out a block that was
not handed out, unless as many blocks as the limit allows are handed out already. -/
theorem getMemory_cases {pool : MemoryPool} (h : Accounted pool) {fresh : Addr}
    (hf : ¬ Knows pool fresh) :
    (0 < pool.maxAlloc ∧ pool.handedOut.length = pool.maxAlloc ∧
        pool.getMemory (some fresh) = (pool, .error (.thrown exhausted))) ∨
      ((pool.maxAlloc = 0 ∨ pool.handedOut.length < pool.maxAlloc) ∧
        ∃ pool' ptr, pool.getMemory (some fresh) = (pool', .ok ptr) ∧
          ptr ∉ pool.handedOut ∧ pool'.handedOut = ptr :: pool.handedOut ∧
          pool'.blockSize = pool.blockSize ∧ pool'.maxAlloc = pool.maxAlloc ∧
          Accounted pool' ∧ ∀ x, Knows pool' x → x = fresh ∨ Knows pool x) := by
  have hnd := h.nodup
  have hlen := h.allocated_eq
  have hlimit := h.limit
  rcases pool.getMemory_outcome (some fresh) with ⟨ptr, blocks, hb, he⟩ |
    ⟨hb, hroom, ptr, hptr, he⟩ | ⟨-, -, hnone, -⟩ | ⟨hb, hfull, he⟩
  · rw [hb] at hnd hlen
    rw [List.length_cons] at hlen
    refine Or.inr ⟨by omega, _, ptr, he, ?_, rfl, rfl, rfl, ⟨?_, ?_, hlimit⟩, ?_⟩
    · exact fun hm => not_mem_blocks_of_mem_handedOut h hm (by rw [hb]; simp)
    · exact (List.perm_middle.nodup_iff).2 hnd
    · simp only [List.length_cons]
      omega
    · rintro x (hx | hx)
      · exact Or.inr (Or.inl (by rw [hb]; exact List.mem_cons_of_mem _ hx))
      · rcases List.mem_cons.1 hx with rfl | hx
        · exact Or.inr (Or.inl (by rw [hb]; exact List.mem_cons_self ..))
        · exact Or.inr (Or.inr hx)
  · obtain rfl : fresh = ptr := Option.some.inj hptr
    rw [hb, List.nil_append] at hnd
    rw [hb, List.length_nil] at hlen
    refine Or.inr ⟨by omega, _, fresh, he, fun hm => hf (Or.inr hm), rfl, rfl, rfl,
      ⟨?_, ?_, ?_⟩, ?_⟩
    · simpa [hb] using ⟨fun hm => hf (Or.inr hm), hnd⟩
    · simp only [hb, List.length_nil, List.length_cons]
      omega
    · intro hpos
      simp only at hpos ⊢
      omega
    · rintro x (hx | hx)
      · exact Or.inr (Or.inl hx)
      · exact (List.mem_cons.1 hx).imp_right Or.inr
  · cases hnone
  · rw [hb, List.length_nil] at hlen
    exact Or.inl ⟨by omega, by omega, he⟩

/-- `Allocate` of something that fits into a block is `GetMemory`. -/
theorem allocate_of_le {pool : MemoryPool} {size : ℕ} (h : size ≤ pool.blockSize)
    (fresh : Option Addr) :
    pool.allocate size fresh =
      ((pool.getMemory fresh).1, (pool.getMemory fresh).2.map some) := by
  rw [allocate, if_neg (by omega)]
  rcases pool.getMemory fresh with ⟨pool', f | ptr⟩ <;> rfl

/-- **Taking a block back keeps the account.** -/
theorem accounted_release {pool : MemoryPool} (h : Accounted pool) {ptr : Addr}
    (hp : ptr ∈ pool.handedOut) : Accounted (pool.release ptr true) where
  nodup := by
    have hperm : (ptr :: pool.blocks ++ pool.handedOut.erase ptr).Perm
        (pool.blocks ++ pool.handedOut) := by
      have hmid : (pool.blocks ++ ptr :: pool.handedOut.erase ptr).Perm
          (ptr :: (pool.blocks ++ pool.handedOut.erase ptr)) := List.perm_middle
      exact hmid.symm.trans ((List.perm_cons_erase hp).symm.append_left _)
    exact (hperm.nodup_iff).2 h.nodup
  allocated_eq := by
    have hlen := List.length_erase_of_mem hp
    have hpos := List.length_pos_of_mem hp
    have := h.allocated_eq
    simp only [release, if_true, List.length_cons]
    omega
  limit := h.limit

theorem mem_handedOut_release {pool : MemoryPool} (h : Accounted pool) {ptr ptr' : Addr} :
    ptr' ∈ (pool.release ptr true).handedOut ↔ ptr' ≠ ptr ∧ ptr' ∈ pool.handedOut :=
  h.nodup_handedOut.mem_erase_iff

end MemoryPool

end WebServer
