import WebServer.Library.LinkedList
import WebServer.Library.Service
import WebServer.Abstractions.ConcurrentHashMap
import WebServer.Abstractions.MemoryPool

/-!
# The nodes of the hash map

`HashNode` and `HashBucket` with their pointers: each operation walks from `_head` and
assigns to `next`, as the code does, in a memory that all the buckets share.  What
`new` returns comes with the call.

* `LinkedBucket.find_eq`, `insert_eq`, `erase_eq`, `clear_eq` — on a list of nodes, no
  operation follows a null or a dangling pointer or runs in a circle, and each does to
  the list what the chain of `ConcurrentHashMap` does.
-/

namespace WebServer

open LinkedList

/-- `HashNode`: a cell that holds `_key` and `_value`. -/
abbrev HashNode (K V : Type*) := Cell Addr (K × V)

/-- The memory of the nodes. -/
abbrev NodeHeap (K V : Type*) := Heap Addr (K × V)

/-- `HashBucket`, with the memory it works on. -/
structure LinkedBucket (K V : Type*) where
  heap : NodeHeap K V
  /-- `_head`. -/
  head : Option Addr

namespace LinkedBucket

variable {K V : Type*} [DecidableEq K]

/-- A walk that looks at more nodes than there are looks at one of them twice. -/
def fuel (heap : NodeHeap K V) : ℕ := heap.keys.card + 1

/-- The loop of `Find`. -/
def findFrom (heap : NodeHeap K V) (key : K) (value : V) :
    ℕ → Option Addr → Except Trap (Bool × V)
  | 0, _ => .error .endless
  | _ + 1, none => .ok (false, value)
  | n + 1, some node =>
    match heap.lookup node with
    | none => .error .dangling
    | some cell =>
      if cell.item.1 = key then .ok (true, cell.item.2) else findFrom heap key value n cell.next

/-- `Find`: what it returns, and what `value` refers to then. -/
def find (b : LinkedBucket K V) (key : K) (value : V) : Except Trap (Bool × V) :=
  findFrom b.heap key value (fuel b.heap) b.head

/-- The loop that `Insert` and `Erase` share: `prev` and `node` when it is left. -/
def seekKey (b : LinkedBucket K V) (key : K) : Except Trap (Option Addr × Option Addr) :=
  seek b.heap (fun item => item.1 = key) (fuel b.heap) none b.head

/-- `Insert`, where `fresh` is what `new` returns if it is called. -/
def insert (b : LinkedBucket K V) (key : K) (value : V) (fresh : Addr) :
    Except Trap (LinkedBucket K V) :=
  match b.seekKey key with
  | .error t => .error t
  | .ok (prev, none) =>
    let heap := b.heap.insert fresh ⟨none, (key, value)⟩
    if b.head = none then .ok ⟨heap, some fresh⟩
    else
      match store heap prev fun cell => { cell with next := some fresh } with
      | .error t => .error t
      | .ok heap => .ok ⟨heap, b.head⟩
  | .ok (_, some node) =>
    match store b.heap (some node) fun cell => { cell with item := (cell.item.1, value) } with
    | .error t => .error t
    | .ok heap => .ok ⟨heap, b.head⟩

/-- `Erase`. -/
def erase (b : LinkedBucket K V) (key : K) : Except Trap (LinkedBucket K V) :=
  match b.seekKey key with
  | .error t => .error t
  | .ok (_, none) => .ok b
  | .ok (prev, some node) =>
    match b.heap.lookup node with
    | none => .error .dangling
    | some cell =>
      if b.head = some node then .ok ⟨b.heap.erase node, cell.next⟩
      else
        match store b.heap prev fun before => { before with next := cell.next } with
        | .error t => .error t
        | .ok heap => .ok ⟨heap.erase node, b.head⟩

omit [DecidableEq K] in
/-- `Clear`. -/
def clear (b : LinkedBucket K V) : Except Trap (LinkedBucket K V) :=
  match release b.heap (fuel b.heap) b.head with
  | .error t => .error t
  | .ok heap => .ok ⟨heap, none⟩

/-! ## What they do to a list of nodes -/

/-- What `Find` reports for what a key holds. -/
def found (held : Option V) (value : V) : Bool × V := held.elim (false, value) fun v => (true, v)

theorem findFrom_eq {heap : NodeHeap K V} {first : Option Addr}
    {cells : List (Addr × (K × V))} (h : Segment heap first cells none) {n : ℕ}
    (hn : cells.length < n) (key : K) (value : V) :
    findFrom heap key value n first =
      .ok (found (Table.findNode key (cells.map Prod.snd)) value) := by
  induction cells generalizing first n with
  | nil =>
    obtain ⟨n, rfl⟩ := Nat.exists_eq_add_one.2 (Nat.zero_lt_of_lt hn)
    obtain rfl : first = none := h
    rfl
  | cons c cells ih =>
    obtain ⟨n, rfl⟩ := Nat.exists_eq_add_one.2 (Nat.zero_lt_of_lt hn)
    obtain ⟨rfl, next, hcell, hrest⟩ := h
    rw [List.length_cons] at hn
    have hn' : cells.length < n := by omega
    simp only [findFrom, hcell, List.map_cons, Table.findNode]
    by_cases hk : c.2.1 = key
    · rw [if_pos hk, if_pos hk]
      rfl
    · rw [if_neg hk, if_neg hk, ih hrest hn']

/-- **`Find`** reports what the list holds for the key. -/
theorem find_eq {b : LinkedBucket K V} {cells : List (Addr × (K × V))}
    (h : Segment b.heap b.head cells none) (key : K) (value : V) :
    b.find key value = .ok (found (Table.findNode key (cells.map Prod.snd)) value) :=
  findFrom_eq h (Nat.lt_succ_of_le h.length_le) key value

/-- The bucket `b`, whose nodes are `cells`, has become `b'` with the nodes `cells'`, and
the rest of the memory is as it was. -/
structure Becomes (b b' : LinkedBucket K V) (cells cells' : List (Addr × (K × V))) : Prop where
  linked : Segment b'.heap b'.head cells' none
  edit : Edit b.heap b'.heap (addresses cells) (addresses cells')

theorem seekKey_eq {b : LinkedBucket K V} {before after : List (Addr × (K × V))}
    (h : Segment b.heap b.head (before ++ after) none) {key : K}
    (hbefore : ∀ c ∈ before, c.2.1 ≠ key) (hafter : ∀ c ∈ after.head?, c.2.1 = key) :
    b.seekKey key = .ok (lastAddress none before, after.head?.map Prod.fst) := by
  have hlen := h.length_le
  rw [List.length_append] at hlen
  apply seek_eq h
  · exact fun c hc => decide_eq_false (hbefore c hc)
  · exact fun c hc => decide_eq_true (hafter c hc)
  · rw [fuel]
    omega

omit [DecidableEq K] in
/-- The nodes in front of the first one with the key, and the others. -/
theorem exists_split_key [DecidableEq K] (key : K) (cells : List (Addr × (K × V))) :
    ∃ before after, cells = before ++ after ∧ (∀ c ∈ before, c.2.1 ≠ key) ∧
      ∀ c ∈ after.head?, c.2.1 = key := by
  obtain ⟨before, after, hcells, hbefore, hafter⟩ :=
    exists_split (fun item : K × V => item.1 = key) cells
  exact ⟨before, after, hcells, fun c hc => of_decide_eq_false (hbefore c hc),
    fun c hc => of_decide_eq_true (hafter c hc)⟩

/-! ## What the assignments make of a bucket -/

section Assignments

omit [DecidableEq K]

variable {b : LinkedBucket K V} {before after : List (Addr × (K × V))} {c : Addr × (K × V)}
  {next : Option Addr}

/-- The first node of a bucket. -/
theorem becomes_first {fresh : Addr} (hfresh : fresh ∉ b.heap) (item : K × V) :
    Becomes b ⟨b.heap.insert fresh ⟨none, item⟩, some fresh⟩ [] [(fresh, item)] where
  linked := ⟨rfl, none, Finmap.lookup_insert _, rfl⟩
  edit := Edit.alloc hfresh (fun _ => mem_addresses_cons) _

/-- A node behind the last one. -/
theorem becomes_push (h : Segment b.heap b.head (before ++ [c]) none) {fresh : Addr}
    (hfresh : fresh ∉ b.heap) (item : K × V) :
    Becomes b ⟨(b.heap.insert fresh ⟨none, item⟩).insert c.1 ⟨some fresh, c.2⟩, b.head⟩
      (before ++ [c]) (before ++ [c] ++ [(fresh, item)]) where
  linked := h.push hfresh item
  edit := by
    refine (Edit.alloc hfresh (fun x => ?_) _).trans (Edit.write ?_ (fun x => Iff.rfl) _)
    · rw [addresses_append, List.mem_append, or_comm]
      exact or_congr_left List.mem_singleton
    · simp [addresses]

/-- A new value. -/
theorem becomes_setItem (h : Segment b.heap b.head (before ++ c :: after) none)
    (hcell : b.heap.lookup c.1 = some ⟨next, c.2⟩) (item : K × V) :
    Becomes b ⟨b.heap.insert c.1 ⟨next, item⟩, b.head⟩ (before ++ c :: after)
      (before ++ (c.1, item) :: after) where
  linked := h.setItem hcell item
  edit := by
    apply Edit.write
    · simp [addresses]
    · intro x
      simp [addresses]

/-- The bucket without its first node. -/
theorem becomes_cutFirst (h : Segment b.heap b.head (c :: after) none)
    (hcell : b.heap.lookup c.1 = some ⟨next, c.2⟩) :
    Becomes b ⟨b.heap.erase c.1, next⟩ (c :: after) after where
  linked := h.cutFirst hcell
  edit := by
    have hlist : Segment b.heap b.head ([] ++ c :: after) none := h
    exact Edit.free (mem_addresses_cons.2 (Or.inl rfl)) hlist.mem_addresses_others

/-- The bucket without the node behind another one. -/
theorem becomes_cut {d : Addr × (K × V)}
    (h : Segment b.heap b.head (before ++ [c] ++ d :: after) none)
    (hcell : b.heap.lookup d.1 = some ⟨next, d.2⟩) :
    Becomes b ⟨(b.heap.insert c.1 ⟨next, c.2⟩).erase d.1, b.head⟩ (before ++ [c] ++ d :: after)
      (before ++ [c] ++ after) where
  linked := h.cut hcell
  edit := by
    refine (Edit.write ?_ (fun x => Iff.rfl) _).trans (Edit.free ?_ h.mem_addresses_others)
    · simp [addresses]
    · simp [addresses]

end Assignments

/-- **`Insert`** changes the value of the node with the key, or appends a new node. -/
theorem insert_eq {b : LinkedBucket K V} {cells : List (Addr × (K × V))}
    (h : Segment b.heap b.head cells none) {fresh : Addr} (hfresh : fresh ∉ b.heap) (key : K)
    (value : V) :
    ∃ b' cells', b.insert key value fresh = .ok b' ∧ Becomes b b' cells cells' ∧
      cells'.map Prod.snd = Table.insertNode key value (cells.map Prod.snd) := by
  obtain ⟨before, after, rfl, hbefore, hafter⟩ := exists_split_key key cells
  have hseek := seekKey_eq h hbefore hafter
  have hkeys : ∀ item ∈ before.map Prod.snd, item.1 ≠ key := List.forall_mem_map.2 hbefore
  rw [List.map_append, Table.insertNode_append hkeys]
  cases after with
  | nil =>
    rw [List.append_nil] at h ⊢
    rcases List.eq_nil_or_concat' before with rfl | ⟨front, c, rfl⟩
    · -- the bucket is empty
      have hhead : b.head = none := h
      refine ⟨_, _, ?_, becomes_first hfresh (key, value), rfl⟩
      rw [insert, hseek]
      exact if_pos hhead
    · -- the walk ends behind the last node
      have hhead : b.head ≠ none := h.ne_none (by simp)
      have hlast := (segment_concat.1 h).2
      have hne : c.1 ≠ fresh := by
        rintro rfl
        exact hfresh (Finmap.lookup_isSome.1 (by rw [hlast]; rfl))
      have hcell : (b.heap.insert fresh ⟨none, (key, value)⟩).lookup c.1 = some ⟨none, c.2⟩ := by
        rw [Finmap.lookup_insert_of_ne _ hne, hlast]
      have hstore := store_eq hcell fun cell => { cell with next := some fresh }
      refine ⟨_, _, ?_, becomes_push h hfresh (key, value), ?_⟩
      · rw [insert, hseek, lastAddress_concat]
        simp only [List.head?_nil, Option.map_none, if_neg hhead, hstore]
      · rw [List.map_append]
        rfl
  | cons c after =>
    -- the node with the key is found
    have hkey : c.2.1 = key := hafter c rfl
    obtain ⟨next, hcell⟩ := h.exists_next
    have hstore := store_eq hcell fun cell => { cell with item := (cell.item.1, value) }
    refine ⟨_, _, ?_, becomes_setItem h hcell (c.2.1, value), ?_⟩
    · rw [insert, hseek]
      simp only [List.head?_cons, Option.map_some, hstore]
    · rw [List.map_append, List.map_cons, List.map_cons, Table.insertNode, if_pos hkey]

/-- **`Erase`** takes the node with the key out of the list. -/
theorem erase_eq {b : LinkedBucket K V} {cells : List (Addr × (K × V))}
    (h : Segment b.heap b.head cells none) (key : K) :
    ∃ b' cells', b.erase key = .ok b' ∧ Becomes b b' cells cells' ∧
      cells'.map Prod.snd = Table.eraseNode key (cells.map Prod.snd) := by
  obtain ⟨before, after, rfl, hbefore, hafter⟩ := exists_split_key key cells
  have hseek := seekKey_eq h hbefore hafter
  have hkeys : ∀ item ∈ before.map Prod.snd, item.1 ≠ key := List.forall_mem_map.2 hbefore
  rw [List.map_append, Table.eraseNode_append hkeys]
  cases after with
  | nil =>
    refine ⟨b, before ++ [], ?_, ⟨h, Edit.refl _ _⟩, ?_⟩
    · rw [erase, hseek]
      rfl
    · rw [List.map_append]
      rfl
  | cons c after =>
    have hkey : c.2.1 = key := hafter c rfl
    obtain ⟨next, hcell⟩ := h.exists_next
    rw [List.map_cons, Table.eraseNode, if_pos hkey, ← List.map_append]
    rcases List.eq_nil_or_concat' before with rfl | ⟨front, p, rfl⟩
    · -- it is the first one
      refine ⟨_, _, ?_, becomes_cutFirst h hcell, rfl⟩
      rw [erase, hseek]
      simp only [List.head?_cons, Option.map_some, hcell]
      exact if_pos h.1
    · -- it has one before it
      have hhead : b.head ≠ some c.1 := h.ne_some (by simp)
      have hprev : b.heap.lookup p.1 = some ⟨some c.1, p.2⟩ := by
        obtain ⟨middle, hfront, hc, -⟩ := segment_append.1 h
        rw [(segment_concat.1 hfront).2, hc]
      have hstore := store_eq hprev fun before => { before with next := next }
      refine ⟨_, _, ?_, becomes_cut h hcell, rfl⟩
      rw [erase, hseek, lastAddress_concat]
      simp only [List.head?_cons, Option.map_some, hcell, if_neg hhead, hstore]

omit [DecidableEq K] in
/-- **`Clear`** gives every node back. -/
theorem clear_eq {b : LinkedBucket K V} {cells : List (Addr × (K × V))}
    (h : Segment b.heap b.head cells none) :
    ∃ b', b.clear = .ok b' ∧ Becomes b b' cells [] := by
  obtain ⟨heap, hrelease, hlookup⟩ := release_eq h (Nat.lt_succ_of_le h.length_le)
  refine ⟨⟨heap, none⟩, ?_, rfl, Edit.freeAll hlookup⟩
  rw [clear, fuel, hrelease]

end LinkedBucket

end WebServer
