import WebServer.Library.Service
import WebServer.Abstractions.MemoryPool

/-!
# Runs of the memory pool

The pool as a service: calls of `GetMemory` and `Release` in any order, each with
what the allocator does in it.

* `MemoryPool.accounting` — as long as allocation succeeds, the account balances
  after every run, the pool throws exactly at its limit, and a block that is taken
  back is the next one to be handed out.
* `MemoryPool.failureAtomic_iff` — a failed allocation is never undone: the counter
  stays ahead of the blocks there are by the number of failures, so a run keeps the
  pool intact exactly when no call of it fails.
-/

namespace WebServer

namespace MemoryPool

/-- What the assertions of the constructor demand of `l_pre_alloc` and `l_max_alloc`. -/
def ConstructorAsserts (l_pre_alloc l_max_alloc : ℕ) : Prop :=
  l_max_alloc = 0 ∨ l_pre_alloc ≤ l_max_alloc

/-- `Available`. -/
def available (pool : MemoryPool) : ℕ := pool.blocks.length

/-- A call, with what `new char[_block_size]` gives, or whether `push_back` succeeds. -/
inductive Call
  | getMemory (fresh : Option Addr)
  | release (ptr : Addr) (grew : Bool)
  deriving DecidableEq, Repr

/-- One call; `Release` has nothing to return. -/
def step (pool : MemoryPool) : Call → MemoryPool × Option (Except Fault Addr)
  | .getMemory fresh => ((pool.getMemory fresh).1, some (pool.getMemory fresh).2)
  | .release ptr grew => (pool.release ptr grew, none)

/-- `new` gives a block that is not in use, and what is released is handed out. -/
def Legal (pool : MemoryPool) : Call → Prop
  | .getMemory fresh => ∀ ptr ∈ fresh, ¬ Knows pool ptr
  | .release ptr _ => ptr ∈ pool.handedOut

/-- The allocations of the call succeed. -/
def Succeeds : Call → Prop
  | .getMemory fresh => fresh ≠ none
  | .release _ grew => grew = true

/-! ## Without failures -/

theorem accounted_step {pool : MemoryPool} (h : Accounted pool) {c : Call}
    (hl : Legal pool c) (hs : Succeeds c) : Accounted (pool.step c).1 := by
  cases c with
  | getMemory fresh =>
    obtain ⟨ptr, rfl⟩ := Option.ne_none_iff_exists'.1 hs
    rcases getMemory_cases h (hl ptr rfl) with ⟨-, -, he⟩ | ⟨-, pool', out, he, -, -, -, -, h', -⟩
    · rw [step, he]
      exact h
    · rw [step, he]
      exact h'
  | release ptr grew =>
    rw [Succeeds] at hs
    subst hs
    exact accounted_release h hl

@[simp] theorem maxAlloc_step (pool : MemoryPool) (c : Call) :
    (pool.step c).1.maxAlloc = pool.maxAlloc := by
  cases c with
  | getMemory fresh =>
    rw [step]
    rcases pool.getMemory_outcome fresh with ⟨_, _, -, he⟩ | ⟨-, -, _, -, he⟩ | ⟨-, -, -, he⟩ |
      ⟨-, -, he⟩
    · rw [he]
    · rw [he]
    · rw [he]
    · rw [he]
  | release ptr grew => cases grew <;> rfl

@[simp] theorem maxAlloc_run (pool : MemoryPool) (calls : List Call) :
    (Service.run step pool calls).maxAlloc = pool.maxAlloc := by
  induction calls generalizing pool with
  | nil => rfl
  | cons c calls ih => rw [Service.run_cons, ih, maxAlloc_step]

/-- `GetMemory` throws exactly when as many blocks as the limit allows are handed out. -/
theorem getMemory_throws_iff {pool : MemoryPool} (h : Accounted pool) {fresh : Addr}
    (hf : ¬ Knows pool fresh) :
    (∃ f, (pool.getMemory (some fresh)).2 = .error f) ↔
      0 < pool.maxAlloc ∧ pool.handedOut.length = pool.maxAlloc := by
  rcases getMemory_cases h hf with ⟨hpos, hlen, he⟩ | ⟨hroom, pool', ptr, he, -⟩
  · rw [he]
    exact ⟨fun _ => ⟨hpos, hlen⟩, fun _ => ⟨_, rfl⟩⟩
  · rw [he]
    refine ⟨?_, fun hfull => by omega⟩
    rintro ⟨f, hf'⟩
    cases hf'

/-- When `GetMemory` throws with memory left, it has done nothing. -/
theorem getMemory_throws_unchanged {pool : MemoryPool} {fresh : Addr} {f : Fault}
    (h : (pool.getMemory (some fresh)).2 = .error f) :
    pool.getMemory (some fresh) = (pool, .error (.thrown exhausted)) := by
  rcases pool.getMemory_outcome (some fresh) with ⟨_, _, -, he⟩ | ⟨-, -, _, -, he⟩ |
    ⟨-, -, hnone, -⟩ | ⟨-, -, he⟩
  · rw [he] at h
    cases h
  · rw [he] at h
    cases h
  · cases hnone
  · exact he

/-- The blocks are handed out in stack order. -/
theorem getMemory_release (pool : MemoryPool) (ptr : Addr) (fresh : Option Addr) :
    ((pool.release ptr true).getMemory fresh).2 = .ok ptr := rfl

/-- What the account of a pool with limit `l_max_alloc` promises. -/
structure Balanced (l_max_alloc : ℕ) (pool : MemoryPool) : Prop where
  blocks_nodup : pool.blocks.Nodup
  not_free_and_out : ∀ ptr ∈ pool.blocks, ptr ∉ pool.handedOut
  handedOut_nodup : pool.handedOut.Nodup
  allocated_eq : pool.allocated = pool.available + pool.handedOut.length
  limit : 0 < l_max_alloc → pool.allocated ≤ l_max_alloc
  throws_iff : ∀ fresh, ¬ Knows pool fresh →
    ((∃ f, (pool.getMemory (some fresh)).2 = .error f) ↔
      0 < l_max_alloc ∧ pool.handedOut.length = l_max_alloc)
  throws_unchanged : ∀ fresh f, (pool.getMemory (some fresh)).2 = .error f →
    (pool.getMemory (some fresh)).1 = pool
  stack_order : ∀ ptr ∈ pool.handedOut, ∀ fresh,
    ((pool.release ptr true).getMemory fresh).2 = .ok ptr

theorem Accounted.balanced {pool : MemoryPool} (h : Accounted pool) :
    Balanced pool.maxAlloc pool where
  blocks_nodup := (List.nodup_append.1 h.nodup).1
  not_free_and_out := fun _ hb ho => not_mem_blocks_of_mem_handedOut h ho hb
  handedOut_nodup := h.nodup_handedOut
  allocated_eq := h.allocated_eq
  limit := h.limit
  throws_iff := fun _ hf => getMemory_throws_iff h hf
  throws_unchanged := fun _ _ hthrows => by rw [getMemory_throws_unchanged hthrows]
  stack_order := fun ptr _ fresh => getMemory_release pool ptr fresh

/-- **The account of the pool balances after every run** in which allocation succeeds. -/
theorem accounting {l_block_size l_max_alloc : ℕ} {fresh : List Addr} (hfresh : fresh.Nodup)
    (hassert : ConstructorAsserts fresh.length l_max_alloc) {calls : List Call}
    (hcalls : Service.Allowed step (fun pool c => Legal pool c ∧ Succeeds c)
      (new l_block_size fresh l_max_alloc) calls) :
    Balanced l_max_alloc (Service.run step (new l_block_size fresh l_max_alloc) calls) := by
  have hnew : Accounted (new l_block_size fresh l_max_alloc) :=
    accounted_new hfresh fun hpos => hassert.resolve_left (by omega)
  have hrun : Accounted (Service.run step (new l_block_size fresh l_max_alloc) calls) := by
    apply Service.invariant _ hnew hcalls
    intro pool c h hc
    exact accounted_step h hc.1 hc.2
  have hbalanced := hrun.balanced
  rw [maxAlloc_run] at hbalanced
  exact hbalanced

/-- A pool of at most two blocks that hands out both, takes one back and hands it out again. -/
theorem accounting_two :
    Balanced 2 (Service.run step (new 16 [1] 2)
      [.getMemory (some 7), .getMemory (some 7), .release 1 true, .getMemory (some 8)]) := by
  apply accounting (by decide) (Or.inr (by decide))
  simp [Service.Allowed, Legal, Succeeds, Knows, step, getMemory, release, new]

/-! ## With failures -/

/-- The call needs memory that the allocator does not give. -/
def Fails (pool : MemoryPool) : Call → Prop
  | .getMemory fresh =>
    pool.blocks = [] ∧ (pool.maxAlloc = 0 ∨ pool.allocated < pool.maxAlloc) ∧ fresh = none
  | .release _ grew => grew = false

instance (pool : MemoryPool) : (c : Call) → Decidable (Fails pool c)
  | .getMemory fresh => inferInstanceAs (Decidable
      (pool.blocks = [] ∧ (pool.maxAlloc = 0 ∨ pool.allocated < pool.maxAlloc) ∧ fresh = none))
  | .release _ grew => inferInstanceAs (Decidable (grew = false))

/-- How many calls of a run fail. -/
def failures : MemoryPool → List Call → ℕ
  | _, [] => 0
  | pool, c :: calls => (if Fails pool c then 1 else 0) + failures (pool.step c).1 calls

theorem failures_eq_zero_iff {pool : MemoryPool} {calls : List Call} :
    failures pool calls = 0 ↔ Service.Allowed step (fun pool c => ¬ Fails pool c) pool calls := by
  induction calls generalizing pool with
  | nil => exact ⟨fun _ => trivial, fun _ => rfl⟩
  | cons c calls ih =>
    rw [failures, Service.Allowed, ← ih, Nat.add_eq_zero_iff]
    by_cases h : Fails pool c <;> simp [h]

/-- The counter is `lost` ahead of the blocks there are, and within its limit. -/
structure Lost (lost : ℕ) (pool : MemoryPool) : Prop where
  allocated_eq : pool.allocated = pool.available + pool.handedOut.length + lost
  limit : 0 < pool.maxAlloc → pool.allocated ≤ pool.maxAlloc

theorem lost_getMemory {pool : MemoryPool} {lost : ℕ} (h : Lost lost pool)
    (fresh : Option Addr) :
    Lost (lost + if Fails pool (.getMemory fresh) then 1 else 0) (pool.getMemory fresh).1 := by
  obtain ⟨heq, hlimit⟩ := h
  rw [available] at heq
  rcases pool.getMemory_outcome fresh with ⟨ptr, blocks, hb, he⟩ | ⟨hb, hroom, ptr, rfl, he⟩ |
    ⟨hb, hroom, hnone, he⟩ | ⟨hb, hfull, he⟩
  · have hfails : ¬ Fails pool (.getMemory fresh) := fun hf => by
      rw [hf.1] at hb
      cases hb
    rw [hb, List.length_cons] at heq
    rw [he, if_neg hfails]
    refine ⟨?_, hlimit⟩
    simp only [available, List.length_cons]
    omega
  · have hfails : ¬ Fails pool (.getMemory (some ptr)) := fun hf => Option.some_ne_none _ hf.2.2
    rw [he, if_neg hfails]
    refine ⟨?_, fun hpos => ?_⟩
    · simp only [available, List.length_cons]
      omega
    · simp only at hpos ⊢
      omega
  · rw [he, if_pos ⟨hb, hroom, hnone⟩]
    refine ⟨?_, fun hpos => ?_⟩
    · simp only [available]
      omega
    · simp only at hpos ⊢
      omega
  · have hfails : ¬ Fails pool (.getMemory fresh) := fun hf => hfull hf.2.1
    rw [he, if_neg hfails]
    exact ⟨heq, hlimit⟩

theorem lost_release {pool : MemoryPool} {lost : ℕ} (h : Lost lost pool) {ptr : Addr}
    (hp : ptr ∈ pool.handedOut) (grew : Bool) :
    Lost (lost + if Fails pool (.release ptr grew) then 1 else 0) (pool.release ptr grew) := by
  obtain ⟨heq, hlim⟩ := h
  have hlen := List.length_erase_of_mem hp
  have hpos := List.length_pos_of_mem hp
  rw [available] at heq
  cases grew with
  | false =>
    refine ⟨?_, hlim⟩
    simp only [release, Fails, available, Bool.false_eq_true, if_false, if_true]
    omega
  | true =>
    refine ⟨?_, hlim⟩
    simp only [release, Fails, available, Bool.true_eq_false, if_false, if_true,
      List.length_cons]
    omega

/-- **Every failure loses one block for good**; nothing else does. -/
theorem lost_step {pool : MemoryPool} {lost : ℕ} (h : Lost lost pool) {c : Call}
    (hl : Legal pool c) :
    Lost (lost + if Fails pool c then 1 else 0) (pool.step c).1 := by
  cases c with
  | getMemory fresh => exact lost_getMemory h fresh
  | release ptr grew => exact lost_release h hl grew

theorem lost_run {pool : MemoryPool} {lost : ℕ} (h : Lost lost pool) {calls : List Call}
    (hcalls : Service.Allowed step Legal pool calls) :
    Lost (lost + failures pool calls) (Service.run step pool calls) := by
  induction calls generalizing pool lost with
  | nil => exact h
  | cons c calls ih =>
    have hrun := ih (lost_step h hcalls.1) hcalls.2
    rw [Nat.add_assoc] at hrun
    exact hrun

theorem lost_new {l_block_size l_max_alloc : ℕ} {fresh : List Addr}
    (hassert : ConstructorAsserts fresh.length l_max_alloc) :
    Lost 0 (new l_block_size fresh l_max_alloc) where
  allocated_eq := by simp [new, available]
  limit := fun hpos => hassert.resolve_left (by simp only [new] at hpos; omega)

/-- The counter counts the blocks that exist. -/
def Conserved (pool : MemoryPool) : Prop :=
  pool.allocated = pool.available + pool.handedOut.length

/-- Once allocation succeeds again, the pool can hand out as many blocks as its limit allows. -/
def FullCapacity (pool : MemoryPool) : Prop :=
  ∀ fresh : List Addr, fresh.length + pool.handedOut.length = pool.maxAlloc →
    (Service.run step pool (fresh.map fun ptr => .getMemory (some ptr))).handedOut.length =
      pool.maxAlloc

/-- The call has left no trace: `GetMemory` has changed nothing, and `Release` has
taken the block it deleted off the counter. -/
def RolledBack (pool : MemoryPool) : Call → Prop
  | .getMemory fresh => (pool.getMemory fresh).1 = pool
  | .release ptr grew => (pool.release ptr grew).allocated + 1 = pool.allocated

/-- A run in which failures of the allocator do no harm to the pool. -/
structure FailureAtomic (pool : MemoryPool) (calls : List Call) : Prop where
  conserved : ∀ before after, calls = before ++ after → Conserved (Service.run step pool before)
  fullCapacity : ∀ before after, calls = before ++ after →
    FullCapacity (Service.run step pool before)
  rolledBack : ∀ before c after, calls = before ++ c :: after →
    Fails (Service.run step pool before) c → RolledBack (Service.run step pool before) c

theorem length_handedOut_getMemory {pool : MemoryPool}
    (hroom : pool.maxAlloc = 0 ∨ pool.allocated < pool.maxAlloc ∨ pool.blocks ≠ [])
    (fresh : Addr) :
    (pool.getMemory (some fresh)).1.handedOut.length = pool.handedOut.length + 1 := by
  rcases pool.getMemory_outcome (some fresh) with ⟨_, _, -, he⟩ | ⟨-, -, _, -, he⟩ |
    ⟨-, -, hnone, -⟩ | ⟨hb, hfull, -⟩
  · rw [he, List.length_cons]
  · rw [he, List.length_cons]
  · cases hnone
  · exact absurd (hroom.imp_right fun h => h.resolve_right fun hne => hne hb) hfull

theorem fullCapacity_of_lost {pool : MemoryPool} (h : Lost 0 pool) : FullCapacity pool := by
  intro fresh
  induction fresh generalizing pool with
  | nil => exact fun hlen => by simpa using hlen
  | cons ptr fresh ih =>
    intro hlen
    rw [List.length_cons] at hlen
    have hroom : pool.maxAlloc = 0 ∨ pool.allocated < pool.maxAlloc ∨ pool.blocks ≠ [] := by
      by_cases hb : pool.blocks = []
      · have heq := h.allocated_eq
        rw [available, hb, List.length_nil] at heq
        omega
      · exact Or.inr (Or.inr hb)
    have hnext := lost_getMemory h (some ptr)
    rw [if_neg fun hf => Option.some_ne_none ptr hf.2.2] at hnext
    have hmax : (pool.getMemory (some ptr)).1.maxAlloc = pool.maxAlloc :=
      maxAlloc_step pool (.getMemory (some ptr))
    have hrun := ih hnext (by
      rw [length_handedOut_getMemory hroom]
      omega)
    exact hrun.trans hmax

/-- **The pool survives the failures of the allocator only when there are none.** -/
theorem failureAtomic_iff {l_block_size l_max_alloc : ℕ} {fresh : List Addr}
    (hassert : ConstructorAsserts fresh.length l_max_alloc) {calls : List Call}
    (hcalls : Service.Allowed step Legal (new l_block_size fresh l_max_alloc) calls) :
    FailureAtomic (new l_block_size fresh l_max_alloc) calls ↔
      Service.Allowed step (fun pool c => ¬ Fails pool c) (new l_block_size fresh l_max_alloc)
        calls := by
  constructor
  · intro h
    have hend := (lost_run (lost_new hassert) hcalls).allocated_eq
    have hcons := h.conserved calls [] (List.append_nil calls).symm
    rw [Conserved] at hcons
    exact failures_eq_zero_iff.1 (by omega)
  · intro h
    have hlost : ∀ before after, calls = before ++ after →
        Lost 0 (Service.run step (new l_block_size fresh l_max_alloc) before) := by
      rintro before after rfl
      have hrun := lost_run (lost_new hassert) (Service.allowed_append.1 hcalls).1
      rw [failures_eq_zero_iff.2 (Service.allowed_append.1 h).1] at hrun
      exact hrun
    refine ⟨fun before after hsplit => (hlost before after hsplit).allocated_eq,
      fun before after hsplit => fullCapacity_of_lost (hlost before after hsplit), ?_⟩
    rintro before c after rfl hfails
    exact absurd hfails (Service.allowed_append.1 h).2.1

/-- A pool without limit that loses nothing, as its one call finds memory. -/
theorem failureAtomic_iff_one :
    FailureAtomic (new 16 [] 0) [.getMemory (some 7)] ↔
      Service.Allowed step (fun pool c => ¬ Fails pool c) (new 16 [] 0)
        [.getMemory (some 7)] :=
  failureAtomic_iff (Or.inl rfl) (by simp [Service.Allowed, Legal, Knows, new])

/-- A pool for one block whose first `new` fails: the counter says one, there is no
block, and with memory back the pool still calls itself exhausted. -/
theorem not_failureAtomic :
    Service.Allowed step Legal (new 16 [] 1) [.getMemory none] ∧
      ¬ FailureAtomic (new 16 [] 1) [.getMemory none] ∧
      ∀ fresh, ((Service.run step (new 16 [] 1) [.getMemory none]).getMemory fresh).2 =
        .error (.thrown exhausted) := by
  refine ⟨by simp [Service.Allowed, Legal], fun h => ?_, fun fresh => rfl⟩
  have hcons := h.conserved [.getMemory none] [] rfl
  revert hcons
  unfold Conserved
  decide

end MemoryPool

end WebServer
