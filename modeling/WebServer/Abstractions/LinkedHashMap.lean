import WebServer.Abstractions.HashNodes

/-!
# The hash map, pointer by pointer

`ConcurrentHashMap` over buckets that are linked lists in one memory.  Every operation
runs under the lock of its bucket, so what any number of clients do is a list of calls.

* `Represents` — the memory holds the chains of a `ConcurrentHashMap`.
* `WellFormed` — the representation invariant, in terms of the nodes.
* `refines_finite_map` — after every run the buckets are well formed, no call has failed,
  and `Find` reports what the key was last given.
-/

namespace WebServer

open LinkedList LinkedBucket

/-- `ConcurrentHashMap`, with its nodes. -/
structure LinkedHashMap (K V : Type*) where
  hashFn : K → ℕ
  hashSize : ℕ
  /-- The `_head` of every bucket of `_hashTable`. -/
  heads : ℕ → Option Addr
  heap : NodeHeap K V
  hashSize_pos : 0 < hashSize

namespace LinkedHashMap

variable {K V : Type*}

/-- The constructor. -/
def new (hashFn : K → ℕ) (hashSize_ : ℕ) (h : 0 < hashSize_) : LinkedHashMap K V where
  hashFn
  hashSize := hashSize_
  heads := fun _ => none
  heap := ∅
  hashSize_pos := h

/-- The bucket a key belongs to. -/
def hashValue (p : LinkedHashMap K V) (key : K) : ℕ := p.hashFn key % p.hashSize

/-- `_hashTable[i]`. -/
def bucket (p : LinkedHashMap K V) (i : ℕ) : LinkedBucket K V := ⟨p.heap, p.heads i⟩

/-- The map after an operation on `_hashTable[i]`. -/
def setBucket (p : LinkedHashMap K V) (i : ℕ) (b : LinkedBucket K V) : LinkedHashMap K V :=
  { p with heads := Function.update p.heads i b.head, heap := b.heap }

/-- The step of the loop of `Clear`. -/
def clearBucket (p : LinkedHashMap K V) (i : ℕ) : Except Trap (LinkedHashMap K V) :=
  (p.bucket i).clear.map (p.setBucket i)

/-- `Clear`. -/
def clear (p : LinkedHashMap K V) : Except Trap (LinkedHashMap K V) :=
  (List.range p.hashSize).foldlM clearBucket p

/-- The destructor: `delete[]` destroys the last bucket first, and each one clears itself. -/
def destroy (p : LinkedHashMap K V) : Except Trap (LinkedHashMap K V) :=
  (List.range p.hashSize).reverse.foldlM clearBucket p

variable [DecidableEq K]

/-- `Find`. -/
def find (p : LinkedHashMap K V) (key : K) (value : V) : Except Trap (Bool × V) :=
  (p.bucket (p.hashValue key)).find key value

/-- `Insert`. -/
def insert (p : LinkedHashMap K V) (key : K) (value : V) (fresh : Addr) :
    Except Trap (LinkedHashMap K V) :=
  ((p.bucket (p.hashValue key)).insert key value fresh).map (p.setBucket (p.hashValue key))

/-- `Erase`. -/
def erase (p : LinkedHashMap K V) (key : K) : Except Trap (LinkedHashMap K V) :=
  ((p.bucket (p.hashValue key)).erase key).map (p.setBucket (p.hashValue key))

/-! ## The chains in the memory -/

/-- The buckets are linked lists in the memory, which hold the chains of the map. -/
structure Represents (p : LinkedHashMap K V) (m : ConcurrentHashMap K V) : Prop where
  hashFn : p.hashFn = m.hashFn
  hashSize : p.hashSize = m.hashSize
  nodes : ∃ lists, Forest p.heap p.heads p.hashSize lists ∧
    ∀ i < p.hashSize, (lists i).map Prod.snd = (m.hashTable i).nodes

omit [DecidableEq K] in
theorem represents_new (hashFn : K → ℕ) {hashSize_ : ℕ} (h : 0 < hashSize_) :
    Represents (new hashFn hashSize_ h : LinkedHashMap K V) (.ofSize hashFn hashSize_ h) where
  hashFn := rfl
  hashSize := rfl
  nodes := by
    refine ⟨fun _ => [], ⟨fun _ _ => rfl, fun _ _ _ _ _ a ha => ?_, fun a ha => ?_⟩,
      fun _ _ => rfl⟩
    · exact absurd ha List.not_mem_nil
    · exact absurd ha (Finmap.notMem_empty)

omit [DecidableEq K] in
/-- **One bucket at a time**: an operation on the list of a bucket is one on its chain. -/
theorem Represents.bucket {p : LinkedHashMap K V} {m : ConcurrentHashMap K V}
    (h : Represents p m) {i : ℕ} (hi : i < p.hashSize) :
    ∃ cells, Segment (p.bucket i).heap (p.bucket i).head cells none ∧
      cells.map Prod.snd = (m.hashTable i).nodes ∧
      ∀ (b' : LinkedBucket K V) (cells' : List (Addr × (K × V))) (chain : HashBucket K V),
        Becomes (p.bucket i) b' cells cells' → cells'.map Prod.snd = chain.nodes →
        Represents (p.setBucket i b')
          { m with hashTable := Function.update m.hashTable i chain } := by
  obtain ⟨lists, hforest, hnodes⟩ := h.nodes
  refine ⟨lists i, hforest.linked i hi, hnodes i hi, fun b' cells' chain hb hchain => ?_⟩
  refine ⟨h.hashFn, h.hashSize, Function.update lists i cells',
    hforest.edit hi hb.edit hb.linked, fun j hj => ?_⟩
  by_cases hji : j = i
  · subst hji
    simpa using hchain
  · simp only [Function.update_of_ne hji]
    exact hnodes j hj

omit [DecidableEq K] in
theorem Represents.hashValue_eq {p : LinkedHashMap K V} {m : ConcurrentHashMap K V}
    (h : Represents p m) (key : K) : p.hashValue key = m.hashValue key := by
  rw [hashValue, ConcurrentHashMap.hashValue, h.hashFn, h.hashSize]

omit [DecidableEq K] in
theorem hashValue_lt (p : LinkedHashMap K V) (key : K) : p.hashValue key < p.hashSize :=
  Nat.mod_lt _ p.hashSize_pos

theorem Represents.find_eq {p : LinkedHashMap K V} {m : ConcurrentHashMap K V}
    (h : Represents p m) (key : K) (value : V) :
    p.find key value = .ok (found (m.find key) value) := by
  obtain ⟨cells, hs, hcells, -⟩ := h.bucket (p.hashValue_lt key)
  rw [find, LinkedBucket.find_eq hs, hcells, h.hashValue_eq]
  rfl

theorem Represents.insert {p : LinkedHashMap K V} {m : ConcurrentHashMap K V}
    (h : Represents p m) (key : K) (value : V) {fresh : Addr} (hfresh : fresh ∉ p.heap) :
    ∃ p', p.insert key value fresh = .ok p' ∧ Represents p' (m.insert key value) := by
  obtain ⟨cells, hs, hcells, hset⟩ := h.bucket (p.hashValue_lt key)
  obtain ⟨b', cells', hinsert, hb, hcells'⟩ := insert_eq hs hfresh key value
  refine ⟨p.setBucket (p.hashValue key) b', by rw [LinkedHashMap.insert, hinsert]; rfl, ?_⟩
  rw [hcells, h.hashValue_eq] at hcells'
  have hrep := hset b' cells' ((m.hashTable (m.hashValue key)).insert key value) hb hcells'
  rwa [h.hashValue_eq] at hrep ⊢

theorem Represents.erase {p : LinkedHashMap K V} {m : ConcurrentHashMap K V}
    (h : Represents p m) (key : K) :
    ∃ p', p.erase key = .ok p' ∧ Represents p' (m.erase key) := by
  obtain ⟨cells, hs, hcells, hset⟩ := h.bucket (p.hashValue_lt key)
  obtain ⟨b', cells', herase, hb, hcells'⟩ := erase_eq hs key
  refine ⟨p.setBucket (p.hashValue key) b', by rw [LinkedHashMap.erase, herase]; rfl, ?_⟩
  rw [hcells, h.hashValue_eq] at hcells'
  have hrep := hset b' cells' ((m.hashTable (m.hashValue key)).erase key) hb hcells'
  rwa [h.hashValue_eq] at hrep ⊢

omit [DecidableEq K] in
theorem Represents.clearBucket {p : LinkedHashMap K V} {m : ConcurrentHashMap K V}
    (h : Represents p m) {i : ℕ} (hi : i < p.hashSize) :
    ∃ p', p.clearBucket i = .ok p' ∧ Represents p' (m.clearBucket i) := by
  obtain ⟨cells, hs, -, hset⟩ := h.bucket hi
  obtain ⟨b', hclear, hb⟩ := clear_eq hs
  refine ⟨p.setBucket i b', by rw [LinkedHashMap.clearBucket, hclear]; rfl, ?_⟩
  exact hset b' [] .empty hb rfl

omit [DecidableEq K] in
/-- The buckets are cleared one after the other. -/
theorem Represents.foldlM_clearBucket {p : LinkedHashMap K V} {m : ConcurrentHashMap K V}
    (h : Represents p m) {is : List ℕ} (his : ∀ i ∈ is, i < p.hashSize) :
    ∃ p', is.foldlM LinkedHashMap.clearBucket p = .ok p' ∧
      Represents p' (is.foldl ConcurrentHashMap.clearBucket m) := by
  induction is generalizing p m with
  | nil => exact ⟨p, rfl, h⟩
  | cons i is ih =>
    rw [List.forall_mem_cons] at his
    obtain ⟨p', hclear, hrep⟩ := h.clearBucket his.1
    have hsize : p'.hashSize = p.hashSize := hrep.hashSize.trans h.hashSize.symm
    obtain ⟨p'', hrest, hrep'⟩ := ih hrep (by rw [hsize]; exact his.2)
    refine ⟨p'', ?_, hrep'⟩
    rw [List.foldlM_cons, hclear]
    exact hrest

omit [DecidableEq K] in
theorem Represents.clear {p : LinkedHashMap K V} {m : ConcurrentHashMap K V}
    (h : Represents p m) : ∃ p', p.clear = .ok p' ∧ Represents p' m.clear := by
  rw [LinkedHashMap.clear, ConcurrentHashMap.clear, ← h.hashSize]
  exact h.foldlM_clearBucket fun i hi => List.mem_range.1 hi

omit [DecidableEq K] in
/-- **The destructor deletes every node there is**, and each of them once. -/
theorem Represents.destroy {p : LinkedHashMap K V} {m : ConcurrentHashMap K V}
    (h : Represents p m) : ∃ p', p.destroy = .ok p' ∧ p'.heap = ∅ := by
  have hall : ∀ i, i ∈ (List.range p.hashSize).reverse ↔ i < p.hashSize := fun i => by
    rw [List.mem_reverse, List.mem_range]
  obtain ⟨p', hdestroy, hrep⟩ := h.foldlM_clearBucket fun i hi => (hall i).1 hi
  rw [ConcurrentHashMap.foldl_clearBucket_list] at hrep
  have hsize : p'.hashSize = p.hashSize := hrep.hashSize.trans h.hashSize.symm
  obtain ⟨lists, hforest, hnodes⟩ := hrep.nodes
  refine ⟨p', hdestroy, Finmap.ext_lookup fun a => ?_⟩
  rw [Finmap.lookup_empty, Finmap.lookup_eq_none]
  intro ha
  obtain ⟨i, hi, hmem⟩ := hforest.owned a ha
  have hchain := hnodes i hi
  simp only [if_pos ((hall i).2 (hsize ▸ hi))] at hchain
  rw [List.map_eq_nil_iff.1 hchain] at hmem
  exact List.not_mem_nil hmem

/-! ## Placement -/

/-- Every key is in the bucket it hashes to. -/
def Placed (m : ConcurrentHashMap K V) : Prop :=
  ∀ i, ∀ key ∈ (m.hashTable i).nodes.map Prod.fst, m.hashValue key = i

omit [DecidableEq K] in
theorem placed_ofSize (hashFn : K → ℕ) {hashSize_ : ℕ} (h : 0 < hashSize_) :
    Placed (.ofSize hashFn hashSize_ h : ConcurrentHashMap K V) :=
  fun _ _ hkey => absurd hkey List.not_mem_nil

omit [DecidableEq K] in
theorem Placed.update {m : ConcurrentHashMap K V} (h : Placed m) {i : ℕ} {chain : HashBucket K V}
    (hchain : ∀ key ∈ chain.nodes.map Prod.fst,
      key ∈ (m.hashTable i).nodes.map Prod.fst ∨ m.hashValue key = i) :
    Placed { m with hashTable := Function.update m.hashTable i chain } := by
  intro j key hkey
  by_cases hji : j = i
  · subst hji
    simp only [Function.update_self] at hkey
    exact (hchain key hkey).elim (h j key) id
  · simp only [Function.update_of_ne hji] at hkey
    exact h j key hkey

theorem Placed.insert {m : ConcurrentHashMap K V} (h : Placed m) (key : K) (value : V) :
    Placed (m.insert key value) := by
  apply h.update
  intro key' hkey'
  rw [Table.Chain.insert, Table.keys_insertNode] at hkey'
  split_ifs at hkey'
  · exact Or.inl hkey'
  · rcases List.mem_append.1 hkey' with hkey' | hkey'
    · exact Or.inl hkey'
    · rw [List.mem_singleton.1 hkey']
      exact Or.inr rfl

theorem Placed.erase {m : ConcurrentHashMap K V} (h : Placed m) (key : K) :
    Placed (m.erase key) :=
  h.update fun _ hkey' => Or.inl (((Table.eraseNode_sublist key _).map Prod.fst).subset hkey')

omit [DecidableEq K] in
theorem Placed.clear {m : ConcurrentHashMap K V} (h : Placed m) : Placed m.clear := by
  rw [ConcurrentHashMap.clear, ConcurrentHashMap.foldl_clearBucket]
  intro i key hkey
  by_cases hi : i < m.hashSize
  · simp only [if_pos hi] at hkey
    cases hkey
  · simp only [if_neg hi] at hkey
    exact h i key hkey

/-! ## Runs -/

/-- A call of one of the clients. -/
inductive Call (K V : Type*)
  /-- `Insert`, with what `new` returns if it is called. -/
  | insert (key : K) (value : V) (fresh : Addr)
  | erase (key : K)
  | clear
  /-- `Find`, with what `value` refers to before. -/
  | find (key : K) (value : V)

omit [DecidableEq K] in
/-- The state after a call without a result. -/
def settle (p : LinkedHashMap K V) :
    Except Trap (LinkedHashMap K V) → LinkedHashMap K V × Except Trap (Option (Bool × V))
  | .error t => (p, .error t)
  | .ok p' => (p', .ok none)

/-- One call; `Find` replies with its result and what `value` refers to then. -/
def step (p : LinkedHashMap K V) :
    Call K V → LinkedHashMap K V × Except Trap (Option (Bool × V))
  | .insert key value fresh => p.settle (p.insert key value fresh)
  | .erase key => p.settle (p.erase key)
  | .clear => p.settle p.clear
  | .find key value => (p, (p.find key value).map some)

/-- `new` returns memory that is not in use. -/
def Fresh (p : LinkedHashMap K V) : Call K V → Prop
  | .insert _ _ fresh => fresh ∉ p.heap
  | _ => True

/-- The same call on a finite map. -/
def mapStep (f : K → Option V) : Call K V → (K → Option V) × Except Trap (Option (Bool × V))
  | .insert key value _ => (Function.update f key (some value), .ok none)
  | .erase key => (Function.update f key none, .ok none)
  | .clear => (fun _ => none, .ok none)
  | .find key value => (f, .ok (some (found (f key) value)))

/-- What a call does to what a key holds. -/
def Call.effect (key : K) (held : Option V) : Call K V → Option V
  | .insert key' value _ => if key' = key then some value else held
  | .erase key' => if key' = key then none else held
  | .clear => none
  | .find _ _ => held

/-- What a key holds after some calls: the value of its last `Insert`, unless it was
erased or everything was cleared since. -/
def held (calls : List (Call K V)) (key : K) : Option V := calls.foldl (Call.effect key) none

theorem mapStep_apply (f : K → Option V) (c : Call K V) (key : K) :
    (mapStep f c).1 key = c.effect key (f key) := by
  cases c with
  | insert key' value fresh =>
    exact (Function.update_apply f key' (some value) key).trans (if_congr eq_comm rfl rfl)
  | erase key' => exact (Function.update_apply f key' none key).trans (if_congr eq_comm rfl rfl)
  | clear => rfl
  | find key' value => rfl

theorem run_mapStep (f : K → Option V) (calls : List (Call K V)) (key : K) :
    Service.run mapStep f calls key = calls.foldl (Call.effect key) (f key) := by
  induction calls generalizing f with
  | nil => rfl
  | cons c calls ih => rw [Service.run_cons, ih, mapStep_apply, List.foldl_cons]

/-- The memory holds the finite map. -/
def Holds (p : LinkedHashMap K V) (f : K → Option V) : Prop :=
  ∃ m, Represents p m ∧ Placed m ∧ ∀ key, m.find key = f key

/-- **Every call does what it does on a finite map.** -/
theorem step_refines {p : LinkedHashMap K V} {f : K → Option V} {c : Call K V} (h : Holds p f)
    (hc : Fresh p c) : (p.step c).2 = (mapStep f c).2 ∧ Holds (p.step c).1 (mapStep f c).1 := by
  obtain ⟨m, hrep, hplaced, hfind⟩ := h
  cases c with
  | insert key value fresh =>
    obtain ⟨p', hp', hrep'⟩ := hrep.insert key value hc
    rw [step, hp']
    refine ⟨rfl, m.insert key value, hrep', hplaced.insert key value, fun key' => ?_⟩
    rw [ConcurrentHashMap.find_insert, hfind]
    exact (Function.update_apply f key (some value) key').symm
  | erase key =>
    obtain ⟨p', hp', hrep'⟩ := hrep.erase key
    rw [step, hp']
    refine ⟨rfl, m.erase key, hrep', hplaced.erase key, fun key' => ?_⟩
    rw [ConcurrentHashMap.find_erase, hfind]
    exact (Function.update_apply f key none key').symm
  | clear =>
    obtain ⟨p', hp', hrep'⟩ := hrep.clear
    rw [step, hp']
    exact ⟨rfl, m.clear, hrep', hplaced.clear, fun key => m.find_clear key⟩
  | find key value =>
    rw [step, hrep.find_eq, hfind]
    exact ⟨rfl, m, hrep, hplaced, hfind⟩

/-- Every bucket is a finite list of nodes without a cycle, in which each key occurs once
and hashes to the bucket; and no node is in two buckets or in none. -/
def WellFormed (p : LinkedHashMap K V) : Prop :=
  ∃ lists : ℕ → List (Addr × (K × V)), Forest p.heap p.heads p.hashSize lists ∧
    ∀ i < p.hashSize, (addresses (lists i)).Nodup ∧
      ((lists i).map fun c => c.2.1).Nodup ∧ ∀ c ∈ lists i, p.hashValue c.2.1 = i

omit [DecidableEq K] in
theorem Represents.wellFormed {p : LinkedHashMap K V} {m : ConcurrentHashMap K V}
    (h : Represents p m) (hm : Placed m) : WellFormed p := by
  obtain ⟨lists, hforest, hnodes⟩ := h.nodes
  refine ⟨lists, hforest, fun i hi => ⟨(hforest.linked i hi).nodup, ?_, fun c hc => ?_⟩⟩
  · have hnd := (m.hashTable i).nodup
    rwa [← hnodes i hi, List.map_map] at hnd
  · rw [h.hashValue_eq]
    apply hm i
    rw [← hnodes i hi, List.map_map]
    exact List.mem_map.2 ⟨c, hc, rfl⟩

theorem holds_new (hashFn : K → ℕ) {hashSize_ : ℕ} (h : 0 < hashSize_) :
    Holds (new hashFn hashSize_ h : LinkedHashMap K V) fun _ => none :=
  ⟨_, represents_new hashFn h, placed_ofSize hashFn h, fun _ => rfl⟩

/-- **The hash map refines a finite map.**  For every hash function, size and run: the
buckets are well formed, every call returns, with the reply a finite map gives, and the
next `Find` reports the value the key was last given. -/
theorem refines_finite_map (hashFn : K → ℕ) {hashSize_ : ℕ} (hpos : 0 < hashSize_)
    {calls : List (Call K V)}
    (hcalls : Service.Allowed step Fresh (new hashFn hashSize_ hpos) calls) :
    WellFormed (Service.run step (new hashFn hashSize_ hpos) calls) ∧
      Service.replies step (new hashFn hashSize_ hpos) calls =
        Service.replies mapStep (fun _ => none) calls ∧
      ∀ key value, (Service.run step (new hashFn hashSize_ hpos) calls).find key value =
        .ok (found (held calls key) value) := by
  obtain ⟨hreplies, m, hrep, hplaced, hfind⟩ :=
    Service.simulation (fun _ _ c h hc => step_refines (c := c) h hc) (holds_new hashFn hpos) hcalls
  refine ⟨hrep.wellFormed hplaced, hreplies, fun key value => ?_⟩
  rw [hrep.find_eq, hfind, run_mapStep, held]

/-- Two keys in one bucket, of which the first is erased. -/
theorem refines_finite_map_colliding :
    (Service.run step (new (fun _ : ℕ => 7) 2 Nat.two_pos)
      [.insert 0 10 100, .insert 1 20 101, .erase 0]).find 1 0 = .ok (true, 20) := by
  have hcalls : Service.Allowed step Fresh (new (fun _ : ℕ => 7) 2 Nat.two_pos)
      [.insert 0 10 100, .insert 1 20 101, .erase 0] := by
    refine ⟨Finmap.notMem_empty, ?_, trivial, trivial⟩
    show 101 ∉ ((new (fun _ : ℕ => 7) 2 Nat.two_pos).step (.insert 0 10 100)).1.heap
    decide
  exact (refines_finite_map (fun _ : ℕ => 7) Nat.two_pos hcalls).2.2 1 0

end LinkedHashMap

end WebServer
