import WebServer.Library.Allocation
import WebServer.Abstractions.MemoryPoolRuns

/-!
# The life of a memory pool

`MemoryPool` from its constructor to its destructor, together with the memory its blocks
are in and the vector that keeps them.  `new`, `reserve` and `push_back` may fail at any
time.

* `PoolMemory.life_leaves` — nothing is given back that is not allocated, a constructor that
  throws leaves nothing behind, and the destructor leaves the blocks that are handed out.
* `PoolMemory.never_reallocates` — with a limit that was reserved, `Release` always takes
  the block back, and the pool is the one of `MemoryPool.step`.
-/

namespace WebServer

open Allocation

/-- `MemoryPool`, with the vector `_blocks` and the memory that it works on. -/
structure PoolMemory where
  pool : MemoryPool
  /-- `_blocks.capacity()`. -/
  capacity : ℕ
  /-- The blocks that `new` has given and `delete` has not taken. -/
  memory : Finset Addr
  deriving DecidableEq

namespace PoolMemory

/-- `_blocks.push_back(ptr)`, where `grown` is the capacity that a reallocation would give,
and `none` where it would throw. -/
def pushBack (p : PoolMemory) (ptr : Addr) (grown : Option ℕ) : Option PoolMemory :=
  let pool := { p.pool with blocks := ptr :: p.pool.blocks }
  if p.pool.blocks.length < p.capacity then some { p with pool }
  else grown.map fun capacity => { p with pool, capacity }

/-- `Clear`; `none` if it deletes what is not allocated. -/
def clear (p : PoolMemory) : Option PoolMemory :=
  -- the vector is gone through from its front
  (freeAll p.memory p.pool.blocks.reverse).map fun memory =>
    { p with pool := { p.pool with blocks := [] }, memory }

/-- `BLOCK_RESERVE`. -/
def blockReserve : ℕ := 128

/-- What the constructor reserves. -/
def reserve (l_pre_alloc l_max_alloc : ℕ) : ℕ :=
  let r := blockReserve
  let r := if r < l_pre_alloc then l_pre_alloc else r
  if 0 < l_max_alloc ∧ l_max_alloc < r then l_max_alloc else r

/-- The loop of the constructor, where each pass has what `new` and a reallocation give.
The second value tells whether the loop was left by an exception. -/
def preAlloc (p : PoolMemory) : List (Option Addr × Option ℕ) → PoolMemory × Bool
  | [] => (p, false)
  | (none, _) :: _ => (p, true)
  | (some ptr, grown) :: answers =>
    let p := { p with memory := insert ptr p.memory }
    match p.pushBack ptr grown with
    | none => (p, true)
    | some p => preAlloc p answers

/-- The constructor, in a memory with some blocks: the pool, or the memory it leaves when it
throws.  There is an answer for every block that is to be pre-allocated. -/
def construct (memory : Finset Addr) (l_block_size l_max_alloc : ℕ) (reserved : Option ℕ)
    (answers : List (Option Addr × Option ℕ)) : Option (Except (Finset Addr) PoolMemory) :=
  match reserved with
  | none => some (.error memory)
  | some capacity =>
    match preAlloc ⟨⟨l_block_size, l_max_alloc, answers.length, [], []⟩, capacity, memory⟩
      answers with
    | (p, false) => some (.ok p)
    | (p, true) => p.clear.map fun p => .error p.memory

/-- The destructor: the memory it leaves. -/
def destroy (p : PoolMemory) : Option (Finset Addr) := p.clear.map memory

/-- `GetMemory`, where `fresh` is what `new char[_block_size]` gives if it is called. -/
def getMemory (p : PoolMemory) (fresh : Option Addr) : PoolMemory × Except Fault Addr :=
  match p.pool.getMemory fresh with
  | (pool, .error f) => ({ p with pool }, .error f)
  | (pool, .ok ptr) =>
    -- where no block was left, this one is new
    let memory := if p.pool.blocks = [] then insert ptr p.memory else p.memory
    ({ p with pool, memory }, .ok ptr)

/-- `Release`; `none` if it deletes what is not allocated. -/
def release (p : PoolMemory) (ptr : Addr) (grown : Option ℕ) : Option PoolMemory :=
  let pool := { p.pool with handedOut := p.pool.handedOut.erase ptr }
  match { p with pool }.pushBack ptr grown with
  | some p => some p
  | none => (free p.memory ptr).map fun memory => { p with pool, memory }

/-- A call of the pool, with what `new` and a reallocation give if they are needed. -/
inductive Call
  | getMemory (fresh : Option Addr)
  | release (ptr : Addr) (grown : Option ℕ)
  deriving DecidableEq, Repr

/-- One call; the reply is `none` if something is deleted that is not allocated. -/
def step (p : PoolMemory) : Call → PoolMemory × Option (Option (Except Fault Addr))
  | .getMemory fresh => ((p.getMemory fresh).1, some (some (p.getMemory fresh).2))
  | .release ptr grown =>
    match p.release ptr grown with
    | none => (p, none)
    | some p => (p, some none)

/-- `new` gives what is not allocated, and what is released is handed out. -/
def Legal (p : PoolMemory) : Call → Prop
  | .getMemory fresh => ∀ ptr ∈ fresh, ptr ∉ p.memory
  | .release ptr _ => ptr ∈ p.pool.handedOut

/-! ## Who owns the blocks -/

/-- The blocks of the pool are those it keeps and those it has handed out. -/
abbrev Keeps (others : Finset Addr) (p : PoolMemory) : Prop :=
  Owned p.memory others (p.pool.blocks ++ p.pool.handedOut)

variable {others : Finset Addr} {p : PoolMemory}

/-- The two ends of `push_back`. -/
theorem pushBack_cases (p : PoolMemory) (ptr : Addr) (grown : Option ℕ) :
    (p.pushBack ptr grown = none ∧ p.capacity ≤ p.pool.blocks.length) ∨
      ∃ capacity, p.pushBack ptr grown =
        some ⟨{ p.pool with blocks := ptr :: p.pool.blocks }, capacity, p.memory⟩ := by
  by_cases hroom : p.pool.blocks.length < p.capacity
  · exact Or.inr ⟨p.capacity, if_pos hroom⟩
  · cases grown with
    | none => exact Or.inl ⟨if_neg hroom, not_lt.1 hroom⟩
    | some capacity => exact Or.inr ⟨capacity, if_neg hroom⟩

/-- **`Clear`** deletes what the pool keeps and nothing else. -/
theorem Keeps.clear (h : Keeps others p) :
    ∃ memory', p.clear = some { p with pool := { p.pool with blocks := [] }, memory := memory' } ∧
      Owned memory' others p.pool.handedOut := by
  have hrev : Owned p.memory others (p.pool.blocks.reverse ++ p.pool.handedOut) :=
    h.perm ((List.reverse_perm _).symm.append_right _)
  obtain ⟨memory', hfree, howned⟩ := hrev.freeAll
  exact ⟨memory', by rw [PoolMemory.clear, hfree]; rfl, howned⟩

theorem Keeps.getMemory (h : Keeps others p) {fresh : Option Addr}
    (hfresh : ∀ ptr ∈ fresh, ptr ∉ p.memory) : Keeps others (p.getMemory fresh).1 := by
  rw [PoolMemory.getMemory]
  rcases p.pool.getMemory_outcome fresh with ⟨ptr, blocks, hb, he⟩ | ⟨hb, hroom, ptr, rfl, he⟩ |
    ⟨hb, -, -, he⟩ | ⟨hb, -, he⟩
  · rw [Keeps, hb] at h
    have hkept : Owned p.memory others (blocks ++ ptr :: p.pool.handedOut) :=
      h.perm List.perm_middle.symm
    simpa only [he, hb, if_neg (List.cons_ne_nil ptr blocks)] using hkept
  · rw [Keeps, hb] at h
    have hnew : Owned (insert ptr p.memory) others ([] ++ ptr :: p.pool.handedOut) :=
      h.allocate (hfresh ptr rfl)
    simpa only [Keeps, he, hb, if_true] using hnew
  · simpa only [he] using h
  · simpa only [he] using h

/-- **`Release`** keeps the block or deletes it. -/
theorem Keeps.release (h : Keeps others p) {ptr : Addr} (hp : ptr ∈ p.pool.handedOut)
    (grown : Option ℕ) : ∃ p', p.release ptr grown = some p' ∧ Keeps others p' := by
  have hfirst : Owned p.memory others (ptr :: (p.pool.blocks ++ p.pool.handedOut.erase ptr)) :=
    h.perm (((List.perm_cons_erase hp).append_left _).trans List.perm_middle)
  rw [PoolMemory.release]
  rcases { p with pool := { p.pool with handedOut := p.pool.handedOut.erase ptr } }.pushBack_cases
    ptr grown with ⟨he, -⟩ | ⟨capacity, he⟩
  · obtain ⟨hfree, hrest⟩ := hfirst.free
    simp only [he, hfree]
    exact ⟨_, rfl, hrest⟩
  · simp only [he]
    exact ⟨_, rfl, hfirst⟩

theorem Keeps.step (h : Keeps others p) {c : Call} (hc : Legal p c) :
    (p.step c).2 ≠ none ∧ Keeps others (p.step c).1 := by
  cases c with
  | getMemory fresh => exact ⟨Option.some_ne_none _, h.getMemory hc⟩
  | release ptr grown =>
    obtain ⟨p', hrelease, hkeeps⟩ := h.release hc grown
    rw [PoolMemory.step, hrelease]
    exact ⟨Option.some_ne_none _, hkeeps⟩

/-- After every run the blocks are still accounted for, and every call has returned. -/
theorem Keeps.run (h : Keeps others p) {calls : List Call}
    (hcalls : Service.Allowed PoolMemory.step Legal p calls) :
    none ∉ Service.replies PoolMemory.step p calls ∧
      Keeps others (Service.run PoolMemory.step p calls) := by
  induction calls generalizing p with
  | nil => exact ⟨List.not_mem_nil, h⟩
  | cons c calls ih =>
    obtain ⟨hreply, hkeeps⟩ := h.step hcalls.1
    obtain ⟨hreplies, hrun⟩ := ih hkeeps hcalls.2
    refine ⟨?_, hrun⟩
    rw [Service.replies_cons, List.mem_cons, not_or]
    exact ⟨hreply.symm, hreplies⟩

/-! ## The constructor -/

variable {answers : List (Option Addr × Option ℕ)} {l_max_alloc : ℕ}
  {memory : Finset Addr} {reserved : Option ℕ}

/-- What is reserved is room for as many blocks as the pool may have, but no more than
`BLOCK_RESERVE` or the blocks that are pre-allocated. -/
theorem le_reserve_iff {l_pre_alloc r : ℕ} :
    r ≤ reserve l_pre_alloc l_max_alloc ↔
      r ≤ max blockReserve l_pre_alloc ∧ (l_max_alloc = 0 ∨ r ≤ l_max_alloc) := by
  dsimp only [reserve]
  split_ifs <;> omega

theorem pushBack_of_lt (h : p.pool.blocks.length < p.capacity) (ptr : Addr) (grown : Option ℕ) :
    p.pushBack ptr grown = some { p with pool := { p.pool with blocks := ptr :: p.pool.blocks } } :=
  if_pos h

/-- The loop puts one block after the other into the room that was reserved. -/
theorem Keeps.preAlloc (h : Keeps others p) (hempty : p.pool.handedOut = [])
    (hroom : p.pool.blocks.length + answers.length ≤ p.capacity)
    (hnd : (answers.filterMap Prod.fst).Nodup)
    (hfresh : ∀ ptr ∈ answers.filterMap Prod.fst, ptr ∉ p.memory) :
    ∃ p' threw, preAlloc p answers = (p', threw) ∧ Keeps others p' ∧ p'.pool.handedOut = [] ∧
      (threw = true ↔ none ∈ answers.map Prod.fst) ∧
      (threw = false → p'.capacity = p.capacity ∧ p'.pool =
        { p.pool with blocks := (answers.filterMap Prod.fst).reverse ++ p.pool.blocks } ∧
        (answers.filterMap Prod.fst).length = answers.length) := by
  induction answers generalizing p with
  | nil => exact ⟨p, false, rfl, h, hempty, by simp, fun _ => ⟨rfl, rfl, rfl⟩⟩
  | cons answer answers ih =>
    obtain ⟨fresh, grown⟩ := answer
    cases fresh with
    | none => exact ⟨p, true, rfl, h, hempty, by simp, fun hthrew => absurd hthrew (by decide)⟩
    | some ptr =>
      rw [List.length_cons] at hroom
      have hcons : ((some ptr, grown) :: answers).filterMap Prod.fst =
          ptr :: answers.filterMap Prod.fst := rfl
      rw [hcons] at hnd hfresh
      rw [List.forall_mem_cons] at hfresh
      have hnd := List.nodup_cons.1 hnd
      have hlt : p.pool.blocks.length < p.capacity := by omega
      have hnew : Keeps others ⟨{ p.pool with blocks := ptr :: p.pool.blocks }, p.capacity,
          insert ptr p.memory⟩ := h.allocate hfresh.1
      obtain ⟨p', threw, he, hkeeps, hout, hthrew, hdone⟩ := ih hnew hempty
        (by simp only [List.length_cons]; omega) hnd.2 fun a ha hmem => by
          rcases Finset.mem_insert.1 hmem with rfl | hmem
          · exact hnd.1 ha
          · exact hfresh.2 a ha hmem
      refine ⟨p', threw, ?_, hkeeps, hout, ?_, fun hfalse => ?_⟩
      · rw [PoolMemory.preAlloc, pushBack_of_lt (p := { p with memory := insert ptr p.memory }) hlt]
        exact he
      · simpa using hthrew
      · obtain ⟨hcapacity, hpool, hlen⟩ := hdone hfalse
        refine ⟨hcapacity, ?_, by simpa using hlen⟩
        rw [hpool]
        simp

/-- What the answers have to be: `reserve` gives what was asked for, and `new` gives blocks
that are not allocated, each of them once. -/
structure Answered (memory : Finset Addr) (l_max_alloc : ℕ) (reserved : Option ℕ)
    (answers : List (Option Addr × Option ℕ)) : Prop where
  asserts : MemoryPool.ConstructorAsserts answers.length l_max_alloc
  reserved_le : ∀ capacity ∈ reserved, reserve answers.length l_max_alloc ≤ capacity
  nodup : (answers.filterMap Prod.fst).Nodup
  fresh : ∀ ptr ∈ answers.filterMap Prod.fst, ptr ∉ memory

/-- **The constructor** throws when an allocation fails, with the memory as it was; else the
pool is new. -/
theorem construct_cases (l_block_size : ℕ)
    (h : Answered memory l_max_alloc reserved answers) :
    ((reserved = none ∨ none ∈ answers.map Prod.fst) ∧
        construct memory l_block_size l_max_alloc reserved answers = some (.error memory)) ∨
      (reserved ≠ none ∧ none ∉ answers.map Prod.fst) ∧
        ∃ p, construct memory l_block_size l_max_alloc reserved answers = some (.ok p) ∧
          Keeps memory p ∧ reserve answers.length l_max_alloc ≤ p.capacity ∧
          p.pool = .new l_block_size (answers.filterMap Prod.fst) l_max_alloc ∧
          (answers.filterMap Prod.fst).length = answers.length := by
  cases reserved with
  | none => exact Or.inl ⟨Or.inl rfl, rfl⟩
  | some capacity =>
    have hcapacity := h.reserved_le capacity rfl
    have hroom := le_reserve_iff.2 ⟨le_max_right _ _, h.asserts⟩
    have hstart : Keeps memory
        ⟨⟨l_block_size, l_max_alloc, answers.length, [], []⟩, capacity, memory⟩ := owned_nil memory
    obtain ⟨p, threw, he, hkeeps, hout, hthrew, hdone⟩ := hstart.preAlloc rfl
      (by simp only [List.length_nil]; omega) h.nodup h.fresh
    cases threw with
    | true =>
      obtain ⟨memory', hclear, howned⟩ := hkeeps.clear
      rw [hout] at howned
      refine Or.inl ⟨Or.inr (hthrew.1 rfl), ?_⟩
      simp only [construct, he, hclear, howned.eq_others, Option.map_some]
    | false =>
      obtain ⟨hsame, hpool, hlen⟩ := hdone rfl
      refine Or.inr ⟨⟨Option.some_ne_none _, fun hmem => absurd (hthrew.2 hmem) (by decide)⟩,
        p, ?_, hkeeps, hsame ▸ hcapacity, ?_, hlen⟩
      · simp only [construct, he]
      · rw [hpool, MemoryPool.new, hlen, List.append_nil]

/-- **The life of a pool.**  Whatever fails on the way, nothing is deleted that is not
allocated.  The constructor throws exactly when an allocation of its own fails, and has then
left the memory as it was; else the destructor leaves, of all the blocks that the pool ever
allocated, those that are handed out. -/
theorem life_leaves (l_block_size : ℕ) (h : Answered memory l_max_alloc reserved answers) :
    ((reserved = none ∨ none ∈ answers.map Prod.fst) ∧
        construct memory l_block_size l_max_alloc reserved answers = some (.error memory)) ∨
      (reserved ≠ none ∧ none ∉ answers.map Prod.fst) ∧
        ∃ p, construct memory l_block_size l_max_alloc reserved answers = some (.ok p) ∧
          ∀ calls, Service.Allowed step Legal p calls →
            none ∉ Service.replies step p calls ∧
              ∃ memory', (Service.run step p calls).destroy = some memory' ∧
                Owned memory' memory (Service.run step p calls).pool.handedOut ∧
                (memory' = memory ↔ (Service.run step p calls).pool.handedOut = []) := by
  refine (construct_cases l_block_size h).imp_right ?_
  rintro ⟨hmade, p, he, hkeeps, -, -, -⟩
  refine ⟨hmade, p, he, fun calls hcalls => ?_⟩
  obtain ⟨hreplies, hrun⟩ := hkeeps.run hcalls
  obtain ⟨memory', hclear, howned⟩ := hrun.clear
  refine ⟨hreplies, memory', by rw [destroy, hclear]; rfl, howned, ?_, fun hout => ?_⟩
  · rintro rfl
    refine List.eq_nil_iff_forall_not_mem.2 fun ptr hptr => ?_
    exact howned.apart ptr hptr ((howned.mem_iff ptr).2 (Or.inr hptr))
  · rw [hout] at howned
    exact howned.eq_others

/-- A pool that hands out its own block and a new one, and takes back its own. -/
theorem life_leaves_two : ∃ p memory',
    construct {5} 16 0 (some 128) [(some 1, none)] = some (.ok p) ∧
      (Service.run step p [.getMemory none, .getMemory (some 2), .release 1 none]).destroy =
        some memory' ∧ Owned memory' {5} [2] ∧ memory' ≠ {5} := by
  have hanswered : Answered {5} 0 (some 128) [(some 1, none)] := by
    refine ⟨Or.inl rfl, fun capacity hc => ?_, by decide, by decide⟩
    obtain rfl := Option.mem_some_iff.1 hc
    decide
  rcases life_leaves 16 hanswered with ⟨-, he⟩ | ⟨-, p, he, hlife⟩
  · cases he
  · obtain rfl := Except.ok.inj (Option.some.inj he)
    obtain ⟨-, memory', hdestroy, howned, hiff⟩ :=
      hlife [.getMemory none, .getMemory (some 2), .release 1 none] (by
        refine ⟨fun ptr h => absurd h (Option.not_mem_none ptr), fun ptr h => ?_, ?_, trivial⟩
        · obtain rfl := Option.mem_some_iff.1 h
          decide
        · show 1 ∈ [2, 1]
          decide)
    exact ⟨_, memory', he, hdestroy, howned, fun heq => absurd (hiff.1 heq) (by decide)⟩

/-! ## With a limit -/

/-- The call on the pool alone, where `Release` takes the block back. -/
def Call.kept : Call → MemoryPool.Call
  | .getMemory fresh => .getMemory fresh
  | .release ptr _ => .release ptr true

/-- The vector has room for as many blocks as the pool may allocate. -/
structure Roomy (others : Finset Addr) (p : PoolMemory) : Prop where
  keeps : Keeps others p
  lost : ∃ lost, MemoryPool.Lost lost p.pool
  limited : 0 < p.pool.maxAlloc
  room : p.pool.maxAlloc ≤ p.capacity

theorem Roomy.length_lt (h : Roomy others p) {ptr : Addr} (hp : ptr ∈ p.pool.handedOut) :
    p.pool.blocks.length < p.capacity := by
  obtain ⟨lost, heq, hlimit⟩ := h.lost
  have hpos := List.length_pos_of_mem hp
  have hmax := hlimit h.limited
  have hroom := h.room
  rw [MemoryPool.available] at heq
  omega

/-- **Every call does what it does on the pool alone.** -/
theorem Roomy.step (h : Roomy others p) {c : Call} (hc : Legal p c) :
    MemoryPool.Legal p.pool c.kept ∧ (p.step c).2 = some (p.pool.step c.kept).2 ∧
      (p.step c).1.pool = (p.pool.step c.kept).1 ∧ (p.step c).1.capacity = p.capacity := by
  cases c with
  | getMemory fresh =>
    refine ⟨fun ptr hptr hknows => hc ptr hptr ((h.keeps.mem_iff ptr).2 (Or.inr ?_)), ?_⟩
    · exact List.mem_append.2 hknows
    · rw [PoolMemory.step, PoolMemory.getMemory, Call.kept, MemoryPool.step]
      rcases p.pool.getMemory fresh with ⟨pool, f | ptr⟩
      · exact ⟨rfl, rfl, rfl⟩
      · exact ⟨rfl, rfl, rfl⟩
  | release ptr grown =>
    have hpush := pushBack_of_lt
      (p := { p with pool := { p.pool with handedOut := p.pool.handedOut.erase ptr } })
      (h.length_lt hc) ptr grown
    have hrelease : p.release ptr grown = some { p with pool := p.pool.release ptr true } := by
      simp only [PoolMemory.release, hpush]
      rfl
    refine ⟨hc, ?_⟩
    rw [PoolMemory.step, hrelease]
    exact ⟨rfl, rfl, rfl⟩

theorem Roomy.next (h : Roomy others p) {c : Call} (hc : Legal p c) :
    Roomy others (p.step c).1 := by
  obtain ⟨hlegal, -, hpool, hcapacity⟩ := h.step hc
  obtain ⟨lost, hlost⟩ := h.lost
  refine ⟨(h.keeps.step hc).2, ?_, ?_, ?_⟩
  · rw [hpool]
    exact ⟨_, MemoryPool.lost_step hlost hlegal⟩
  · rw [hpool, MemoryPool.maxAlloc_step]
    exact h.limited
  · rw [hpool, hcapacity, MemoryPool.maxAlloc_step]
    exact h.room

theorem Roomy.run (h : Roomy others p) {calls : List Call}
    (hcalls : Service.Allowed PoolMemory.step Legal p calls) :
    Service.Allowed MemoryPool.step MemoryPool.Legal p.pool (calls.map Call.kept) ∧
      Service.replies PoolMemory.step p calls =
        (Service.replies MemoryPool.step p.pool (calls.map Call.kept)).map some ∧
      (Service.run PoolMemory.step p calls).pool =
        Service.run MemoryPool.step p.pool (calls.map Call.kept) ∧
      (Service.run PoolMemory.step p calls).capacity = p.capacity := by
  induction calls generalizing p with
  | nil => exact ⟨trivial, rfl, rfl, rfl⟩
  | cons c calls ih =>
    obtain ⟨hlegal, hreply, hpool, hcapacity⟩ := h.step hcalls.1
    obtain ⟨hallowed, hreplies, hrun, hsame⟩ := ih (h.next hcalls.1) hcalls.2
    rw [hpool] at hallowed hreplies hrun
    refine ⟨⟨hlegal, hallowed⟩, ?_, hrun, hsame.trans hcapacity⟩
    rw [Service.replies_cons, hreply, hreplies]
    rfl

/-- **A limit that was reserved is never outgrown.**  When all the blocks that the pool may
allocate have room in the vector from the start, it is not reallocated in any run: `Release`
takes every block back, and the pool answers as the one of `MemoryPool.step`. -/
theorem never_reallocates (l_block_size : ℕ) (h : Answered memory l_max_alloc reserved answers)
    (hlimit : 0 < l_max_alloc) (hmax : l_max_alloc ≤ max blockReserve answers.length)
    (hp : construct memory l_block_size l_max_alloc reserved answers = some (.ok p))
    (calls : List Call) (hcalls : Service.Allowed step Legal p calls) :
    p.pool = .new l_block_size (answers.filterMap Prod.fst) l_max_alloc ∧
      Service.Allowed MemoryPool.step MemoryPool.Legal p.pool (calls.map Call.kept) ∧
      Service.replies step p calls =
        (Service.replies MemoryPool.step p.pool (calls.map Call.kept)).map some ∧
      (Service.run step p calls).pool =
        Service.run MemoryPool.step p.pool (calls.map Call.kept) ∧
      (Service.run step p calls).capacity = p.capacity := by
  rcases construct_cases l_block_size h with ⟨-, he⟩ | ⟨-, p', he, hkeeps, hroom, hpool, hlen⟩
  · rw [he] at hp
    cases hp
  · obtain rfl : p' = p := Except.ok.inj (Option.some.inj (he.symm.trans hp))
    have hall := le_reserve_iff.2 ⟨hmax, Or.inr le_rfl⟩
    have hroomy : Roomy memory p' := by
      refine ⟨hkeeps, ⟨0, ?_⟩, ?_, ?_⟩
      · rw [hpool]
        exact MemoryPool.lost_new (hlen ▸ h.asserts)
      · rw [hpool]
        exact hlimit
      · rw [hpool]
        exact hall.trans hroom
    exact ⟨hpool, hroomy.run hcalls⟩

/-- The pool of the server, of whose three blocks one is handed out and taken back. -/
theorem never_reallocates_hundred : ∃ p,
    construct ∅ 16 100 (some 100) [(some 1, none), (some 2, none), (some 3, none)] =
        some (.ok p) ∧
      (Service.run step p [.getMemory none, .release 3 none]).pool =
        Service.run MemoryPool.step p.pool [.getMemory none, .release 3 true] := by
  have hanswered : Answered ∅ 100 (some 100) [(some 1, none), (some 2, none), (some 3, none)] := by
    refine ⟨Or.inr (by decide), fun capacity hc => ?_, by decide, by decide⟩
    obtain rfl := Option.mem_some_iff.1 hc
    decide
  refine ⟨_, rfl, ?_⟩
  obtain ⟨-, -, -, hrun, -⟩ := never_reallocates 16 hanswered (by decide) (by decide) rfl
    [.getMemory none, .release 3 none] (by
      refine ⟨fun ptr h => absurd h (Option.not_mem_none ptr), ?_, trivial⟩
      show 3 ∈ [3]
      decide)
  exact hrun

end PoolMemory

end WebServer
