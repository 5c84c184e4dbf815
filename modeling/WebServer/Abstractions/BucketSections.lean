import WebServer.Library.Guarded
import WebServer.Abstractions.LinkedHashMap

/-!
# The hash map, step by step

`HashBucket`'s operations as they run: a statement at a time, under the `_mutex` of their
bucket, which `Find` shares and `Insert`, `Erase` and `Clear` have alone.  Any number of
threads make calls at the same time, all buckets have their nodes in one memory, and an
address may be handed out again once it was given back.

* `next` — what each statement does.
* `Mid` — what holds of the nodes of a bucket at each statement.
* `serializable` — no thread ever follows a bad pointer, and every order of the steps does
  and replies what the calls do one after the other, as they are in `LinkedHashMap`.
* `every_call_returns` — no deadlock, and no call that runs for ever.
* `nothing_left` — when all calls have returned, the destructor deletes every node.
-/

namespace WebServer

open LinkedList LinkedBucket

namespace HashSections

variable {n : ℕ} {K V : Type*}

/-- A call of an operation of one of `n` buckets.  `Clear` is called by the loop of the map's
`Clear`, with the index of the bucket. -/
inductive Call (n : ℕ) (K V : Type*)
  /-- `Find`, with what `value` refers to before. -/
  | find (key : K) (value : V)
  | insert (key : K) (value : V)
  | erase (key : K)
  | clear (i : Fin n)

/-- A statement of an operation, with the values of its variables. -/
inductive Point (K V : Type*)
  /-- `node = _head`. -/
  | begin
  /-- The condition of the loop. -/
  | look (prev node : Option Addr)
  /-- `prev = node; node = node->next;` in `Find`, `Insert` and `Erase`. -/
  | advance (node : Addr)
  /-- `value = node->GetValue()`. -/
  | load (node : Addr)
  /-- `nullptr == _head` in `Insert`. -/
  | branch (prev : Option Addr) (key : K) (value : V)
  /-- `new HashNode<K, V>(key, value)`. -/
  | construct (first : Bool) (prev : Option Addr) (key : K) (value : V)
  /-- The assignment of the new node to `_head` or to `prev->next`. -/
  | link (first : Bool) (prev : Option Addr) (node : Addr)
  /-- `node->SetValue(value)`. -/
  | setValue (node : Addr) (value : V)
  /-- The assignment of `node->next` to `_head` or to `prev->next`. -/
  | unlink (prev : Option Addr) (node : Addr)
  /-- `delete node` in `Erase`. -/
  | delete (node : Addr)
  /-- `prev = node; node = node->next;` in `Clear`. -/
  | step (node : Addr)
  /-- `delete prev` in `Clear`. -/
  | release (prev : Addr) (node : Option Addr)
  /-- `_head = nullptr`. -/
  | reset
  /-- The lock is given back. -/
  | unlock (reply : Option (Bool × V))

/-- Where an operation goes on when its loop has come to the end of the list. -/
def Call.missing (prev : Option Addr) : Call n K V → Point K V
  | .find _ value => .unlock (some (false, value))
  | .insert key value => .branch prev key value
  | .erase _ => .unlock none
  | .clear _ => .reset

/-- Where an operation goes on when its loop has come to a node with its key. -/
def Call.hit (prev : Option Addr) (node : Addr) : Call n K V → Point K V
  | .find _ _ => .load node
  | .insert _ value => .setValue node value
  | .erase _ => .unlink prev node
  | .clear _ => .step node

/-- The key an operation looks for. -/
def Call.key? : Call n K V → Option K
  | .find key _ => some key
  | .insert key _ => some key
  | .erase key => some key
  | .clear _ => none

/-- `Find` takes a `shared_lock`, the others a `unique_lock`. -/
def Call.shared : Call n K V → Bool
  | .find _ _ => true
  | _ => false

/-- What a step of an operation comes to. -/
abbrev Turn (K V : Type*) :=
  Guarded.Turn (Point K V) (Option Addr) (NodeHeap K V) (Option (Bool × V))

/-- The step behind a pointer. -/
def follow (heap : NodeHeap K V) (node : Addr) (k : HashNode K V → Turn K V) : Turn K V :=
  match heap.lookup node with
  | none => .trap .dangling
  | some cell => k cell

/-- The step that ends with an assignment behind a pointer. -/
def assign (heap : NodeHeap K V) (pointer : Option Addr)
    (change : HashNode K V → HashNode K V) (k : NodeHeap K V → Turn K V) : Turn K V :=
  match store heap pointer change with
  | .error t => .trap t
  | .ok heap => k heap

variable [DecidableEq K]

/-- One statement.  `fresh` is what `new` returns if it is called, and `head` is `_head`. -/
def next (c : Call n K V) (p : Point K V) (fresh : Addr) (head : Option Addr)
    (heap : NodeHeap K V) : Turn K V :=
  match p with
  | .begin => .move (.look none head) head heap
  | .look prev none => .move (c.missing prev) head heap
  | .look prev (some node) =>
    match c.key? with
    | none => .move (c.hit prev node) head heap
    | some key =>
      follow heap node fun cell =>
        .move (if cell.item.1 = key then c.hit prev node else .advance node) head heap
  | .advance node => follow heap node fun cell => .move (.look (some node) cell.next) head heap
  | .load node => follow heap node fun cell => .move (.unlock (some (true, cell.item.2))) head heap
  | .branch prev key value => .move (.construct head.isNone prev key value) head heap
  | .construct first prev key value =>
    .move (.link first prev fresh) head (heap.insert fresh ⟨none, (key, value)⟩)
  | .link true _ node => .move (.unlock none) (some node) heap
  | .link false prev node =>
    assign heap prev (fun before => { before with next := some node }) fun heap =>
      .move (.unlock none) head heap
  | .setValue node value =>
    assign heap (some node) (fun cell => { cell with item := (cell.item.1, value) }) fun heap =>
      .move (.unlock none) head heap
  | .unlink prev node =>
    follow heap node fun cell =>
      if head = some node then .move (.delete node) cell.next heap
      else
        assign heap prev (fun before => { before with next := cell.next }) fun heap =>
          .move (.delete node) head heap
  | .delete node => follow heap node fun _ => .move (.unlock none) head (heap.erase node)
  | .step node => follow heap node fun cell => .move (.release node cell.next) head heap
  | .release prev node =>
    follow heap prev fun _ => .move (.look (some prev) node) head (heap.erase prev)
  | .reset => .move (.unlock none) none heap
  | .unlock reply => .leave reply head heap

/-- The bucket a call works on. -/
def lock (hashFn : K → ℕ) (hpos : 0 < n) : Call n K V → Fin n
  | .find key _ => ⟨hashFn key % n, Nat.mod_lt _ hpos⟩
  | .insert key _ => ⟨hashFn key % n, Nat.mod_lt _ hpos⟩
  | .erase key => ⟨hashFn key % n, Nat.mod_lt _ hpos⟩
  | .clear i => i

/-- The operations of the buckets. -/
def program (hashFn : K → ℕ) (hpos : 0 < n) :
    Guarded.Program (Fin n) (Call n K V) (Point K V) (Option Addr) Addr (K × V)
      (Option (Bool × V)) where
  lock := lock hashFn hpos
  shared := Call.shared
  start := fun _ => .begin
  next := next

/-- What an operation does to a chain. -/
def spec : Call n K V → HashBucket K V → HashBucket K V × Option (Bool × V)
  | .find key value, chain => (chain, some (found (chain.find key) value))
  | .insert key value, chain => (chain.insert key value, none)
  | .erase key, chain => (chain.erase key, none)
  | .clear _, _ => (.empty, none)

/-! ## The nodes at each statement -/

omit [DecidableEq K] in
/-- What holds of a bucket that nobody changes: the list from `_head` on is its chain. -/
def Rest (x : HashBucket K V) (r : List Addr) (head : Option Addr) (heap : NodeHeap K V) : Prop :=
  ∃ cells, Segment heap head cells none ∧ r = addresses cells ∧ cells.map Prod.snd = x.nodes

/-- The loop for `key` has passed the nodes `before` and not the nodes `after`. -/
structure Walk (x : HashBucket K V) (r : List Addr) (head : Option Addr) (heap : NodeHeap K V)
    (key : K) (before after : List (Addr × (K × V))) : Prop where
  linked : Segment heap head (before ++ after) none
  cells : r = addresses (before ++ after)
  nodes : (before ++ after).map Prod.snd = x.nodes
  behind : ∀ c ∈ before, c.2.1 ≠ key

/-- What holds at each statement of a call, from which it takes at most `k` steps to the end. -/
inductive Mid (x : HashBucket K V) (r : List Addr) (head : Option Addr) (heap : NodeHeap K V) :
    Call n K V → Point K V → ℕ → Prop
  | begin {c k} {cells : List (Addr × (K × V))} (hlinked : Segment heap head cells none)
      (hr : r = addresses cells) (hx : cells.map Prod.snd = x.nodes)
      (hk : 3 * cells.length + 7 ≤ k) : Mid x r head heap c .begin k
  | look {c k key before after} (hc : c.key? = some key)
      (hwalk : Walk x r head heap key before after) (hk : 2 * after.length + 6 ≤ k) :
      Mid x r head heap c (.look (lastAddress none before) (after.head?.map Prod.fst)) k
  | advance {c k key before node after} (hc : c.key? = some key)
      (hwalk : Walk x r head heap key before (node :: after)) (hne : node.2.1 ≠ key)
      (hk : 2 * after.length + 7 ≤ k) : Mid x r head heap c (.advance node.1) k
  | load {k key value before node after}
      (hwalk : Walk x r head heap key before (node :: after)) (hkey : node.2.1 = key)
      (hk : 2 ≤ k) : Mid x r head heap (.find key value) (.load node.1) k
  | branch {k key value before} (hwalk : Walk x r head heap key before []) (hk : 5 ≤ k) :
      Mid x r head heap (.insert key value) (.branch (lastAddress none before) key value) k
  | construct {k key value before} (hwalk : Walk x r head heap key before []) (hk : 4 ≤ k) :
      Mid x r head heap (.insert key value)
        (.construct head.isNone (lastAddress none before) key value) k
  | link {k key value before node} (hlinked : Segment heap head before none)
      (hr : r = node :: addresses before) (hx : before.map Prod.snd = x.nodes)
      (hbehind : ∀ c ∈ before, c.2.1 ≠ key)
      (hnode : heap.lookup node = some ⟨none, (key, value)⟩) (hnew : node ∉ addresses before)
      (hk : 3 ≤ k) :
      Mid x r head heap (.insert key value) (.link head.isNone (lastAddress none before) node) k
  | setValue {k key value before node after}
      (hwalk : Walk x r head heap key before (node :: after)) (hkey : node.2.1 = key)
      (hk : 3 ≤ k) : Mid x r head heap (.insert key value) (.setValue node.1 value) k
  | unlink {k key before node after}
      (hwalk : Walk x r head heap key before (node :: after)) (hkey : node.2.1 = key)
      (hk : 4 ≤ k) :
      Mid x r head heap (.erase key) (.unlink (lastAddress none before) node.1) k
  | delete {k key cells node} (hlinked : Segment heap head cells none)
      (hr : r = node :: addresses cells)
      (hx : cells.map Prod.snd = Table.eraseNode key x.nodes) (hnode : node ∈ heap)
      (hnew : node ∉ addresses cells) (hk : 3 ≤ k) :
      Mid x r head heap (.erase key) (.delete node) k
  | sweep {k i prev node} {cells : List (Addr × (K × V))}
      (hlinked : Segment heap node cells none) (hr : r = addresses cells)
      (hk : 3 * cells.length + 6 ≤ k) : Mid x r head heap (.clear i) (.look prev node) k
  | step {k i node} {cells : List (Addr × (K × V))}
      (hlinked : Segment heap (some node) cells none) (hr : r = addresses cells)
      (hk : 3 * cells.length + 5 ≤ k) : Mid x r head heap (.clear i) (.step node) k
  | release {k i prev node} {cells : List (Addr × (K × V))}
      (hlinked : Segment heap node cells none) (hr : r = prev :: addresses cells)
      (hprev : prev ∈ heap) (hnew : prev ∉ addresses cells) (hk : 3 * cells.length + 7 ≤ k) :
      Mid x r head heap (.clear i) (.release prev node) k
  | reset {k i} (hr : r = []) (hk : 2 ≤ k) : Mid x r head heap (.clear i) .reset k
  | unlock {c k reply} (hrest : Rest (spec c x).1 r head heap) (hreply : reply = (spec c x).2) :
      Mid x r head heap c (.unlock reply) k

variable {x : HashBucket K V} {r : List Addr} {head : Option Addr} {heap heap' : NodeHeap K V}
  {c : Call n K V} {p : Point K V} {k : ℕ} {key : K} {before after : List (Addr × (K × V))}

/-! ### The nodes are in the part of the bucket -/

omit [DecidableEq K] in
theorem Rest.frame (h : Rest x r head heap) (hsame : ∀ a ∈ r, heap'.lookup a = heap.lookup a) :
    Rest x r head heap' := by
  obtain ⟨cells, hlinked, rfl, hx⟩ := h
  exact ⟨cells, hlinked.congr hsame, rfl, hx⟩

omit [DecidableEq K] in
theorem Rest.mem (h : Rest x r head heap) : ∀ a ∈ r, a ∈ heap := by
  obtain ⟨cells, hlinked, rfl, -⟩ := h
  exact fun a ha => Finmap.lookup_isSome.1 (hlinked.lookup a ha)

omit [DecidableEq K] in
theorem Walk.frame (h : Walk x r head heap key before after)
    (hsame : ∀ a ∈ r, heap'.lookup a = heap.lookup a) : Walk x r head heap' key before after where
  linked := h.linked.congr (h.cells ▸ hsame)
  cells := h.cells
  nodes := h.nodes
  behind := h.behind

omit [DecidableEq K] in
theorem Walk.rest (h : Walk x r head heap key before after) : Rest x r head heap :=
  ⟨before ++ after, h.linked, h.cells, h.nodes⟩

theorem Mid.frame (h : Mid x r head heap c p k)
    (hsame : ∀ a ∈ r, heap'.lookup a = heap.lookup a) : Mid x r head heap' c p k := by
  cases h with
  | begin hlinked hr hx hk => exact .begin (hlinked.congr (hr ▸ hsame)) hr hx hk
  | look hc hwalk hk => exact .look hc (hwalk.frame hsame) hk
  | advance hc hwalk hne hk => exact .advance hc (hwalk.frame hsame) hne hk
  | load hwalk hkey hk => exact .load (hwalk.frame hsame) hkey hk
  | branch hwalk hk => exact .branch (hwalk.frame hsame) hk
  | construct hwalk hk => exact .construct (hwalk.frame hsame) hk
  | @link k key value before node hlinked hr hx hbehind hnode hnew hk =>
    subst hr
    refine .link (hlinked.congr fun a ha => hsame a (List.mem_cons_of_mem _ ha)) rfl hx hbehind
      ?_ hnew hk
    rw [hsame node (List.mem_cons_self ..), hnode]
  | setValue hwalk hkey hk => exact .setValue (hwalk.frame hsame) hkey hk
  | unlink hwalk hkey hk => exact .unlink (hwalk.frame hsame) hkey hk
  | @delete k key cells node hlinked hr hx hnode hnew hk =>
    subst hr
    refine .delete (hlinked.congr fun a ha => hsame a (List.mem_cons_of_mem _ ha)) rfl hx ?_
      hnew hk
    rwa [← Finmap.lookup_isSome, hsame node (List.mem_cons_self ..), Finmap.lookup_isSome]
  | sweep hlinked hr hk => exact .sweep (hlinked.congr (hr ▸ hsame)) hr hk
  | step hlinked hr hk => exact .step (hlinked.congr (hr ▸ hsame)) hr hk
  | @release k i prev node cells hlinked hr hprev hnew hk =>
    subst hr
    refine .release (hlinked.congr fun a ha => hsame a (List.mem_cons_of_mem _ ha)) rfl ?_
      hnew hk
    rwa [← Finmap.lookup_isSome, hsame prev (List.mem_cons_self ..), Finmap.lookup_isSome]
  | reset hr hk => exact .reset hr hk
  | unlock hrest hreply => exact .unlock (hrest.frame hsame) hreply

theorem Mid.mem (h : Mid x r head heap c p k) : ∀ a ∈ r, a ∈ heap := by
  have hcells : ∀ {first : Option Addr} {cells : List (Addr × (K × V))},
      Segment heap first cells none → ∀ a ∈ addresses cells, a ∈ heap :=
    fun hlinked a ha => Finmap.lookup_isSome.1 (hlinked.lookup a ha)
  cases h with
  | begin hlinked hr => exact hr ▸ hcells hlinked
  | look _ hwalk => exact hwalk.rest.mem
  | advance _ hwalk => exact hwalk.rest.mem
  | load hwalk => exact hwalk.rest.mem
  | branch hwalk => exact hwalk.rest.mem
  | construct hwalk => exact hwalk.rest.mem
  | link hlinked hr _ _ hnode =>
    subst hr
    exact List.forall_mem_cons.2 ⟨Finmap.mem_of_lookup_eq_some hnode, hcells hlinked⟩
  | setValue hwalk => exact hwalk.rest.mem
  | unlink hwalk => exact hwalk.rest.mem
  | delete hlinked hr _ hnode => exact hr ▸ List.forall_mem_cons.2 ⟨hnode, hcells hlinked⟩
  | sweep hlinked hr => exact hr ▸ hcells hlinked
  | step hlinked hr => exact hr ▸ hcells hlinked
  | release hlinked hr hprev => exact hr ▸ List.forall_mem_cons.2 ⟨hprev, hcells hlinked⟩
  | reset hr =>
    subst hr
    exact fun a ha => absurd ha List.not_mem_nil
  | unlock hrest => exact hrest.mem

/-! ### One statement -/

/-- The step changes nothing but the statement. -/
def Stays (x : HashBucket K V) (r : List Addr) (head : Option Addr) (heap : NodeHeap K V)
    (c : Call n K V) (k : ℕ) (t : Turn K V) : Prop :=
  ∃ p', t = .move p' head heap ∧ ∃ k' < k, Mid x r head heap c p' k'

/-- The loop of an operation with a key has come to its end, or to a node. -/
theorem stays_look (hc : c.key? = some key) (hwalk : Walk x r head heap key before after)
    (hk : 2 * after.length + 6 ≤ k) (fresh : Addr) :
    Stays x r head heap c k
      (next c (.look (lastAddress none before) (after.head?.map Prod.fst)) fresh head heap) := by
  cases after with
  | nil =>
    refine ⟨c.missing (lastAddress none before), rfl, ?_⟩
    have hnodes : x.nodes = before.map Prod.snd := by
      rw [← hwalk.nodes, List.append_nil]
    have hkeys : ∀ item ∈ before.map Prod.snd, item.1 ≠ key := List.forall_mem_map.2 hwalk.behind
    cases c with
    | find key' value =>
      cases hc
      have hfind : x.find key = none := by
        show Table.findNode key x.nodes = none
        rw [hnodes, ← List.append_nil (before.map Prod.snd), Table.findNode_append hkeys]
        rfl
      refine ⟨0, by omega, .unlock hwalk.rest ?_⟩
      rw [spec, hfind]
      rfl
    | insert key' value =>
      cases hc
      exact ⟨5, by omega, .branch hwalk (Nat.le_refl 5)⟩
    | erase key' =>
      cases hc
      refine ⟨0, by omega, .unlock ?_ rfl⟩
      have herase : (x.erase key).nodes = x.nodes := by
        show Table.eraseNode key x.nodes = x.nodes
        rw [hnodes, ← List.append_nil (before.map Prod.snd), Table.eraseNode_append hkeys]
        rfl
      exact ⟨before ++ [], hwalk.linked, hwalk.cells, hwalk.nodes.trans herase.symm⟩
    | clear i => cases hc
  | cons node after =>
    obtain ⟨cell, hcell⟩ := hwalk.linked.exists_next
    rw [List.length_cons] at hk
    refine ⟨if node.2.1 = key then c.hit (lastAddress none before) node.1 else .advance node.1,
      ?_, ?_⟩
    · simp only [next, List.head?_cons, Option.map_some, hc, follow, hcell]
    · by_cases hkey : node.2.1 = key
      · rw [if_pos hkey]
        cases c with
        | find key' value =>
          cases hc
          exact ⟨2, by omega, .load hwalk hkey (Nat.le_refl 2)⟩
        | insert key' value =>
          cases hc
          exact ⟨3, by omega, .setValue hwalk hkey (Nat.le_refl 3)⟩
        | erase key' =>
          cases hc
          exact ⟨4, by omega, .unlink hwalk hkey (Nat.le_refl 4)⟩
        | clear i => cases hc
      · rw [if_neg hkey]
        exact ⟨2 * after.length + 7, by omega, .advance hc hwalk hkey (Nat.le_refl _)⟩

/-- The loop of an operation with a key goes to the next node. -/
theorem stays_advance {node : Addr × (K × V)} (hc : c.key? = some key)
    (hwalk : Walk x r head heap key before (node :: after)) (hne : node.2.1 ≠ key)
    (hk : 2 * after.length + 7 ≤ k) (fresh : Addr) :
    Stays x r head heap c k (next c (.advance node.1) fresh head heap) := by
  obtain ⟨middle, hbefore, -, cell, hcell, hafter⟩ := segment_append.1 hwalk.linked
  have hcell' : cell = after.head?.map Prod.fst := by
    cases after with
    | nil => exact hafter
    | cons d after => exact hafter.1
  have happend : before ++ node :: after = before ++ [node] ++ after := List.append_cons ..
  refine ⟨.look (some node.1) cell, by simp only [next, follow, hcell], 2 * after.length + 6,
    by omega, ?_⟩
  rw [hcell', ← lastAddress_concat none before node]
  refine .look hc ⟨?_, ?_, ?_, ?_⟩ (Nat.le_refl _)
  · rw [← happend]
    exact hwalk.linked
  · rw [← happend]
    exact hwalk.cells
  · rw [← happend]
    exact hwalk.nodes
  · intro d hd
    rcases List.mem_append.1 hd with hd | hd
    · exact hwalk.behind d hd
    · rwa [List.mem_singleton.1 hd]

/-- An operation starts at `_head`. -/
theorem stays_begin {cells : List (Addr × (K × V))} (hlinked : Segment heap head cells none)
    (hr : r = addresses cells) (hx : cells.map Prod.snd = x.nodes)
    (hk : 3 * cells.length + 7 ≤ k) (fresh : Addr) :
    Stays x r head heap c k (next c .begin fresh head heap) := by
  refine ⟨.look none head, rfl, ?_⟩
  have hhead : head = cells.head?.map Prod.fst := by
    cases cells with
    | nil => exact hlinked
    | cons d cells => exact hlinked.1
  cases hc : c.key? with
  | some key =>
    refine ⟨2 * cells.length + 6, by omega, ?_⟩
    rw [hhead]
    rw [hhead] at hlinked
    have hwalk : Walk x r _ heap key [] cells :=
      ⟨hlinked, hr, hx, fun d hd => absurd hd List.not_mem_nil⟩
    exact .look hc hwalk (Nat.le_refl _)
  | none =>
    cases c with
    | clear i => exact ⟨3 * cells.length + 6, by omega, .sweep hlinked hr (Nat.le_refl _)⟩
    | _ => cases hc

theorem reads (hc : c.shared = true) (h : Mid x r head heap c p k) (fresh : Addr) :
    (spec c x).1 = x ∧ Guarded.Reads (fun p' k' => Mid x r head heap c p' k') k (spec c x).2 head
      heap (next c p fresh head heap) := by
  have hstays : ∀ {t : Turn K V}, Stays x r head heap c k t →
      Guarded.Reads (fun p' k' => Mid x r head heap c p' k') k (spec c x).2 head heap t := by
    rintro t ⟨p', rfl, hmid⟩
    exact ⟨rfl, rfl, hmid⟩
  cases c with
  | find key value =>
    refine ⟨rfl, ?_⟩
    cases h with
    | begin hlinked hr hx hk => exact hstays (stays_begin hlinked hr hx hk fresh)
    | look hc' hwalk hk => exact hstays (stays_look hc' hwalk hk fresh)
    | advance hc' hwalk hne hk => exact hstays (stays_advance hc' hwalk hne hk fresh)
    | @load _ _ _ before node after hwalk hkey hk =>
      obtain ⟨cell, hcell⟩ := hwalk.linked.exists_next
      refine hstays ⟨.unlock (some (true, node.2.2)), by simp only [next, follow, hcell], 0,
        by omega, .unlock hwalk.rest ?_⟩
      have hfind : x.find key = some node.2.2 := by
        show Table.findNode key x.nodes = some node.2.2
        rw [← hwalk.nodes, List.map_append, List.map_cons, Table.findNode_append
          (List.forall_mem_map.2 hwalk.behind), Table.findNode, if_pos hkey]
      rw [spec, hfind]
      rfl
    | unlock hrest hreply => exact ⟨rfl, rfl, hreply⟩
  | insert key value => cases hc
  | erase key => cases hc
  | clear i => cases hc

/-- What a step of an operation that has the lock alone may do. -/
abbrev Writes (x : HashBucket K V) (c : Call n K V) (k : ℕ) (r : List Addr) (heap : NodeHeap K V) :
    Turn K V → Prop :=
  Guarded.Writes (fun p' k' r' head' heap' => Mid x r' head' heap' c p' k') (Rest (spec c x).1) k
    (spec c x).2 r heap

theorem Stays.writes {t : Turn K V} (h : Stays x r head heap c k t) : Writes x c k r heap t := by
  obtain ⟨p', rfl, hmid⟩ := h
  exact ⟨r, Edit.refl heap r, hmid⟩

omit [DecidableEq K] in
/-- A list from `_head` is empty when `_head` is null. -/
theorem isNone_iff {cells : List (Addr × (K × V))} (h : Segment heap head cells none) :
    head.isNone = true ↔ cells = [] := by
  cases cells with
  | nil =>
    obtain rfl : head = none := h
    exact iff_of_true rfl rfl
  | cons d cells =>
    rw [h.1]
    exact iff_of_false Bool.false_ne_true (List.cons_ne_nil _ _)

/-- The new node is there, on no list. -/
theorem writes_construct {value : V} (hwalk : Walk x r head heap key before []) (hk : 4 ≤ k)
    {fresh : Addr} (hfresh : fresh ∉ heap) :
    Writes x (.insert key value : Call n K V) k r heap
      (next (.insert key value : Call n K V)
        (.construct head.isNone (lastAddress none before) key value) fresh head heap) := by
  obtain ⟨hlinked, rfl, hnodes, hbehind⟩ := hwalk
  rw [List.append_nil] at hlinked hnodes ⊢
  have hnew : fresh ∉ addresses before := fun hmem =>
    hfresh (Finmap.lookup_isSome.1 (hlinked.lookup fresh hmem))
  refine ⟨fresh :: addresses before, Edit.alloc hfresh (fun a => List.mem_cons) _, 3, by omega, ?_⟩
  exact .link (hlinked.insert_of_notMem hnew _) rfl hnodes hbehind (Finmap.lookup_insert _) hnew
    (Nat.le_refl 3)

/-- The new node is the last one of the list. -/
theorem writes_link {value : V} {node : Addr} (hlinked : Segment heap head before none)
    (hx : before.map Prod.snd = x.nodes) (hbehind : ∀ d ∈ before, d.2.1 ≠ key)
    (hnode : heap.lookup node = some ⟨none, (key, value)⟩) (hnew : node ∉ addresses before)
    (hk : 3 ≤ k) (fresh : Addr) :
    Writes x (.insert key value : Call n K V) k (node :: addresses before) heap
      (next (.insert key value : Call n K V) (.link head.isNone (lastAddress none before) node)
        fresh head heap) := by
  have hkeys : ∀ item ∈ before.map Prod.snd, item.1 ≠ key := List.forall_mem_map.2 hbehind
  have hinsert : (before ++ [(node, (key, value))]).map Prod.snd = (x.insert key value).nodes := by
    show _ = Table.insertNode key value x.nodes
    rw [← hx, ← List.append_nil (before.map Prod.snd), Table.insertNode_append hkeys,
      List.map_append]
    rfl
  rcases List.eq_nil_or_concat' before with rfl | ⟨front, d, rfl⟩
  · -- the bucket was empty
    obtain rfl : head = none := hlinked
    refine ⟨[node], Edit.refl heap _, 2, by omega, .unlock ?_ rfl⟩
    exact ⟨[(node, (key, value))], ⟨rfl, none, hnode, rfl⟩, rfl, hinsert⟩
  · have hhead : head.isNone = false := by
      rw [Bool.eq_false_iff, Ne, isNone_iff hlinked]
      simp
    have hstore := store_eq (segment_concat.1 hlinked).2 fun before =>
      { before with next := some node }
    rw [hhead, lastAddress_concat]
    simp only [next, assign, hstore]
    refine ⟨addresses (front ++ [d] ++ [(node, (key, value))]), Edit.write ?_ (fun a => ?_) _, 2,
      by omega, .unlock ?_ rfl⟩
    · simp [addresses]
    · rw [addresses_append, List.mem_append, List.mem_cons, or_comm]
      exact or_congr_left List.mem_singleton
    · exact ⟨_, hlinked.link hnode hnew, rfl, hinsert⟩

/-- The node has a new value. -/
theorem writes_setValue {value : V} {node : Addr × (K × V)}
    (hwalk : Walk x r head heap key before (node :: after)) (hkey : node.2.1 = key) (hk : 3 ≤ k)
    (fresh : Addr) :
    Writes x (.insert key value : Call n K V) k r heap
      (next (.insert key value : Call n K V) (.setValue node.1 value) fresh head heap) := by
  obtain ⟨hlinked, rfl, hnodes, hbehind⟩ := hwalk
  obtain ⟨cell, hcell⟩ := hlinked.exists_next
  have hstore := store_eq hcell fun cell => { cell with item := (cell.item.1, value) }
  simp only [next, assign, hstore]
  refine ⟨addresses (before ++ (node.1, (node.2.1, value)) :: after),
    Edit.write (by simp [addresses]) (fun a => by simp [addresses]) _, 2, by omega, .unlock ?_ rfl⟩
  refine ⟨_, hlinked.setItem hcell (node.2.1, value), rfl, ?_⟩
  show _ = Table.insertNode key value x.nodes
  rw [← hnodes, List.map_append, List.map_append, List.map_cons, List.map_cons,
    Table.insertNode_append (List.forall_mem_map.2 hbehind), Table.insertNode, if_pos hkey]

/-- The node is on no list. -/
theorem writes_unlink {node : Addr × (K × V)}
    (hwalk : Walk x r head heap key before (node :: after)) (hkey : node.2.1 = key) (hk : 4 ≤ k)
    (fresh : Addr) :
    Writes x (.erase key : Call n K V) k r heap
      (next (.erase key : Call n K V) (.unlink (lastAddress none before) node.1) fresh head
        heap) := by
  obtain ⟨hlinked, rfl, hnodes, hbehind⟩ := hwalk
  obtain ⟨cell, hcell⟩ := hlinked.exists_next
  have hother := hlinked.notMem_others
  have herase : (before ++ after).map Prod.snd = Table.eraseNode key x.nodes := by
    rw [← hnodes, List.map_append, List.map_append, List.map_cons,
      Table.eraseNode_append (List.forall_mem_map.2 hbehind), Table.eraseNode, if_pos hkey]
  have hnew : node.1 ∉ addresses (before ++ after) := by
    rw [addresses_append, List.mem_append]
    exact fun hmem => hmem.elim hother.1 hother.2
  have hmem : ∀ a, a ∈ node.1 :: addresses (before ++ after) ↔
      a ∈ addresses (before ++ node :: after) := by
    intro a
    simp only [addresses_append, List.mem_cons, List.mem_append, mem_addresses_cons]
    exact or_left_comm
  have halloc : node.1 ∈ heap := Finmap.mem_of_lookup_eq_some hcell
  rcases List.eq_nil_or_concat' before with rfl | ⟨front, d, rfl⟩
  · -- it is the first one
    obtain ⟨hhead, cell', hcell', hrest⟩ := id hlinked
    obtain rfl : cell = cell' := next_eq hcell hcell'
    simp only [next, follow, hcell, if_pos hhead]
    exact ⟨_, Edit.refl heap _, 3, by omega,
      .delete hrest rfl herase halloc hnew (Nat.le_refl 3)⟩
  · have hhead : head ≠ some node.1 := hlinked.ne_some (by simp)
    have hprev : heap.lookup d.1 = some ⟨some node.1, d.2⟩ := by
      obtain ⟨middle, hfront, hmiddle, -⟩ := segment_append.1 hlinked
      rw [(segment_concat.1 hfront).2, hmiddle]
    have hstore := store_eq hprev fun before => { before with next := cell }
    rw [lastAddress_concat]
    simp only [next, follow, hcell, if_neg hhead, assign, hstore]
    refine ⟨node.1 :: addresses (front ++ [d] ++ after), Edit.write (by simp [addresses]) hmem _, 3,
      by omega, .delete (hlinked.unlink hcell) rfl herase ?_ hnew (Nat.le_refl 3)⟩
    exact Finmap.mem_insert.2 (Or.inr halloc)

omit [DecidableEq K] in
/-- A node that is on no list is given back. -/
theorem edit_delete {node : Addr} {cells : List (Addr × (K × V))}
    (hnew : node ∉ addresses cells) :
    Edit heap (heap.erase node) (node :: addresses cells) (addresses cells) := by
  refine Edit.free (List.mem_cons_self ..) fun a => ?_
  rw [List.mem_cons]
  constructor
  · intro ha
    refine ⟨Or.inr ha, ?_⟩
    rintro rfl
    exact hnew ha
  · rintro ⟨ha, hne⟩
    exact ha.resolve_left hne

theorem writes (hc : c.shared = false) (h : Mid x r head heap c p k) {fresh : Addr}
    (hfresh : fresh ∉ heap) : Writes x c k r heap (next c p fresh head heap) := by
  cases h with
  | begin hlinked hr hx hk => exact (stays_begin hlinked hr hx hk fresh).writes
  | look hc' hwalk hk => exact (stays_look hc' hwalk hk fresh).writes
  | advance hc' hwalk hne hk => exact (stays_advance hc' hwalk hne hk fresh).writes
  | load hwalk hkey hk => cases hc
  | branch hwalk hk => exact ⟨r, Edit.refl heap r, 4, by omega, .construct hwalk (Nat.le_refl 4)⟩
  | construct hwalk hk => exact writes_construct hwalk hk hfresh
  | link hlinked hr hx hbehind hnode hnew hk =>
    exact hr ▸ writes_link hlinked hx hbehind hnode hnew hk fresh
  | setValue hwalk hkey hk => exact writes_setValue hwalk hkey hk fresh
  | unlink hwalk hkey hk => exact writes_unlink hwalk hkey hk fresh
  | @delete k key cells node hlinked hr hx hnode hnew hk =>
    subst hr
    obtain ⟨cell, hcell⟩ := Finmap.mem_iff.1 hnode
    simp only [next, follow, hcell]
    exact ⟨addresses cells, edit_delete hnew, 2, by omega,
      .unlock ⟨cells, hlinked.erase_of_notMem hnew, rfl, hx⟩ rfl⟩
  | @sweep k i prev node cells hlinked hr hk =>
    subst hr
    cases cells with
    | nil =>
      obtain rfl : node = none := hlinked
      exact ⟨[], Edit.refl heap [], 2, by omega, .reset rfl (Nat.le_refl 2)⟩
    | cons d cells =>
      obtain rfl : node = some d.1 := hlinked.1
      exact ⟨_, Edit.refl heap _, 3 * (d :: cells).length + 5, by omega,
        .step hlinked rfl (Nat.le_refl _)⟩
  | @step k i node cells hlinked hr hk =>
    subst hr
    cases cells with
    | nil => cases hlinked
    | cons d cells =>
      obtain ⟨hnode, cell, hcell, hrest⟩ := id hlinked
      obtain rfl : node = d.1 := Option.some.inj hnode
      rw [List.length_cons] at hk
      simp only [next, follow, hcell]
      exact ⟨_, Edit.refl heap _, 3 * cells.length + 7, by omega,
        .release hrest rfl (Finmap.mem_of_lookup_eq_some hcell) (List.nodup_cons.1 hlinked.nodup).1
          (Nat.le_refl _)⟩
  | @release k i prev node cells hlinked hr hprev hnew hk =>
    subst hr
    obtain ⟨cell, hcell⟩ := Finmap.mem_iff.1 hprev
    simp only [next, follow, hcell]
    exact ⟨addresses cells, edit_delete hnew, 3 * cells.length + 6, by omega,
      .sweep (hlinked.erase_of_notMem hnew) rfl (Nat.le_refl _)⟩
  | reset hr hk =>
    subst hr
    exact ⟨[], Edit.refl heap [], 1, by omega, .unlock ⟨[], rfl, rfl, rfl⟩ rfl⟩
  | unlock hrest hreply => exact ⟨r, Edit.refl heap r, hrest, hreply⟩

/-- **The operations of a bucket**, statement by statement, do what they do to its chain. -/
theorem laws (hashFn : K → ℕ) (hpos : 0 < n) :
    Guarded.Laws (program (V := V) hashFn hpos) spec Rest
      (fun c p k x r head heap => Mid x r head heap c p k) where
  rest_frame h hsame := h.frame hsame
  mid_frame h hsame := h.frame hsame
  rest_mem h := h.mem
  mid_mem h := h.mem
  enter c x r head heap h := by
    obtain ⟨cells, hlinked, hr, hx⟩ := h
    exact ⟨3 * cells.length + 7, .begin hlinked hr hx (Nat.le_refl _)⟩
  read hc h ha := reads hc h _
  write hc h ha := writes hc h ha

/-! ## All threads together -/

/-- The threads, the buckets and their nodes. -/
abbrev State (ι : Type*) (n : ℕ) (K V : Type*) :=
  Guarded.State ι (Fin n) (Call n K V) (Point K V) (Option Addr) Addr (K × V) (Option (Bool × V))

/-- A new map, with `n` buckets. -/
def State.new (ι : Type*) (n : ℕ) (K V : Type*) : State ι n K V :=
  .start ι _ _ _ (fun _ => none) ∅

/-- The buckets with their nodes. -/
def State.map {ι : Type*} (s : State ι n K V) (hashFn : K → ℕ) (hpos : 0 < n) :
    LinkedHashMap K V where
  hashFn
  hashSize := n
  heads := fun i => if hi : i < n then s.data ⟨i, hi⟩ else none
  heap := s.heap
  hashSize_pos := hpos

/-- A call as one step of the map. -/
def mapStep (m : ConcurrentHashMap K V) : Call n K V → ConcurrentHashMap K V × Option (Bool × V)
  | .find key value => (m, some (found (m.find key) value))
  | .insert key value => (m.insert key value, none)
  | .erase key => (m.erase key, none)
  | .clear i => (m.clearBucket i, none)

variable {ι : Type*} {hashFn : K → ℕ} {hpos : 0 < n} {s : State ι n K V}

/-- The chains are those of the map. -/
structure Chains (hashFn : K → ℕ) (x : Fin n → HashBucket K V) (m : ConcurrentHashMap K V) :
    Prop where
  hashFn : m.hashFn = hashFn
  hashSize : m.hashSize = n
  nodes : ∀ i : Fin n, x i = m.hashTable i

omit [DecidableEq K] in
theorem Chains.update {x : Fin n → HashBucket K V} {m : ConcurrentHashMap K V}
    (h : Chains hashFn x m) {i : Fin n} {j : ℕ} (hij : (i : ℕ) = j) (chain : HashBucket K V) :
    Chains hashFn (Function.update x i chain)
      { m with hashTable := Function.update m.hashTable j chain } where
  hashFn := h.hashFn
  hashSize := h.hashSize
  nodes := by
    intro k
    subst hij
    by_cases hk : k = i
    · subst hk
      simp only [Function.update_self]
    · simp only [Function.update_of_ne hk, Function.update_of_ne (Fin.val_ne_of_ne hk)]
      exact h.nodes k

/-- **Bucket by bucket**, a call is a call of the map. -/
theorem Chains.step {x : Fin n → HashBucket K V} {m : ConcurrentHashMap K V}
    (h : Chains hashFn x m) (c : Call n K V) :
    (Guarded.atomic (program hashFn hpos) spec x c).2 = (mapStep m c).2 ∧
      Chains hashFn (Guarded.atomic (program hashFn hpos) spec x c).1 (mapStep m c).1 := by
  have hhash : ∀ key, hashFn key % n = m.hashValue key := by
    intro key
    rw [ConcurrentHashMap.hashValue, h.hashFn, h.hashSize]
  have hchain : ∀ key, x ⟨hashFn key % n, Nat.mod_lt _ hpos⟩ = m.hashTable (m.hashValue key) :=
    fun key => (h.nodes _).trans (congrArg m.hashTable (hhash key))
  cases c with
  | find key value =>
    constructor
    · show some (found ((x ⟨hashFn key % n, _⟩).find key) value) = _
      rw [hchain]
      rfl
    · show Chains hashFn (Function.update x _ (x _)) m
      rwa [Function.update_eq_self]
  | insert key value =>
    refine ⟨rfl, ?_⟩
    show Chains hashFn (Function.update x _ ((x ⟨hashFn key % n, _⟩).insert key value)) _
    rw [hchain]
    exact h.update (hhash key) _
  | erase key =>
    refine ⟨rfl, ?_⟩
    show Chains hashFn (Function.update x _ ((x ⟨hashFn key % n, _⟩).erase key)) _
    rw [hchain]
    exact h.update (hhash key) _
  | clear i => exact ⟨rfl, h.update rfl _⟩

omit [DecidableEq K] in
theorem chains_new : Chains hashFn (fun _ : Fin n => (.empty : HashBucket K V))
    (.ofSize hashFn n hpos) where
  hashFn := rfl
  hashSize := rfl
  nodes := fun _ => rfl

theorem explained_new [DecidableEq ι] :
    Guarded.Explained (program hashFn hpos) Rest
      (fun c p k x r head heap => Mid x r head heap c p k)
      (fun _ => .empty) (fun _ => []) (fun _ => 0) (State.new ι n K V) where
  partition := by
    refine ⟨fun _ _ _ a ha => ?_, fun _ a ha => ?_, fun a ha => ?_⟩
    · exact absurd ha List.not_mem_nil
    · exact absurd ha List.not_mem_nil
    · exact absurd ha Finmap.notMem_empty
  exclusive := by
    intro i j c c' p p' hi
    cases hi
  unfailed := by
    intro i t hi
    cases hi
  rest := fun _ _ => ⟨[], rfl, rfl, rfl⟩
  mid := by
    intro i c p hi
    cases hi

/-- The chains are in the memory when nobody is inside an operation. -/
theorem represents_map {x : Fin n → HashBucket K V} {region : Fin n → List Addr} {steps : ι → ℕ}
    (h : Guarded.Explained (program hashFn hpos) Rest
      (fun c p k x r head heap => Mid x r head heap c p k) x region steps s)
    (hout : ∀ i c p, s.threads i ≠ .inside c p) {m : ConcurrentHashMap K V}
    (hx : Chains hashFn x m) : LinkedHashMap.Represents (s.map hashFn hpos) m := by
  have hrest : ∀ i : Fin n, Rest (x i) (region i) (s.data i) s.heap :=
    fun i => h.rest i fun j c p hj => absurd hj (hout j c p)
  choose cells hlinked hregion hnodes using hrest
  refine ⟨hx.hashFn.symm, hx.hashSize.symm, fun i => if hi : i < n then cells ⟨i, hi⟩ else [],
    ⟨fun i hi => ?_, fun i hi j hj hij a ha => ?_, fun a ha => ?_⟩, fun i hi => ?_⟩
  · simpa only [State.map, dif_pos (show i < n from hi)] using hlinked ⟨i, hi⟩
  · simp only [dif_pos (show i < n from hi), ← hregion] at ha
    simp only [dif_pos (show j < n from hj), ← hregion]
    exact h.partition.disjoint _ _ (fun heq => hij (Fin.mk.inj_iff.1 heq)) a ha
  · obtain ⟨i, hi⟩ := h.partition.owned a ha
    refine ⟨i, i.2, ?_⟩
    simpa only [dif_pos i.2, Fin.eta, ← hregion] using hi
  · simp only [dif_pos (show i < n from hi), hnodes]
    rw [hx.nodes]

/-- A thread has inserted a key while another waits to look for it. -/
theorem exists_reachable : ∃ s : State Bool 2 ℕ ℕ,
    Guarded.Reachable (program id Nat.two_pos) (State.new Bool 2 ℕ ℕ) s ∧
      s.log = [(.insert 1 10, none)] ∧ s.threads false = .idle ∧
      s.threads true = .waiting (.find 1 0) := by
  have h₀ : Guarded.Reachable (program id Nat.two_pos) (State.new Bool 2 ℕ ℕ)
    (State.new Bool 2 ℕ ℕ) := .refl
  have h₁ := h₀.tail (.call (i := false) (.insert 1 10) rfl)
  have h₂ := h₁.tail (.call (i := true) (.find 1 0) rfl)
  have h₃ := h₂.tail (.advance (.enter (i := false) (c := .insert 1 10) rfl fun i c p hi => by
    cases i <;> cases hi))
  have h₄ := h₃.tail (.advance (.move (i := false) (a := 7) rfl (by decide) rfl))
  have h₅ := h₄.tail (.advance (.move (i := false) (a := 7) rfl (by decide) rfl))
  have h₆ := h₅.tail (.advance (.move (i := false) (a := 7) rfl (by decide) rfl))
  have h₇ := h₆.tail (.advance (.move (i := false) (a := 7) rfl (by decide) rfl))
  have h₈ := h₇.tail (.advance (.move (i := false) (a := 8) rfl (by decide) rfl))
  have h₉ := h₈.tail (.advance (.leave (i := false) (a := 8) rfl (by decide) rfl))
  exact ⟨_, h₉, rfl, rfl, rfl⟩

/-- Whatever the threads have done, the log is a history of the map, whose chains the
memory holds. -/
theorem exists_explained [DecidableEq ι]
    (h : Guarded.Reachable (program hashFn hpos) (State.new ι n K V) s) :
    ∃ x region steps, Guarded.Explained (program hashFn hpos) Rest
        (fun c p k x r head heap => Mid x r head heap c p k) x region steps s ∧
      s.log = Service.history mapStep (.ofSize hashFn n hpos) (s.log.map Prod.fst) ∧
      Chains hashFn x (Service.run mapStep (.ofSize hashFn n hpos) (s.log.map Prod.fst)) := by
  obtain ⟨cs, region, steps, hlog, hexpl⟩ := h.explained (laws hashFn hpos) explained_new rfl
  have hcs : s.log.map Prod.fst = cs := by rw [hlog, Service.history_calls]
  have hstep : ∀ x m (c : Call n K V), Chains hashFn x m → True →
      (Guarded.atomic (program hashFn hpos) spec x c).2 = (mapStep m c).2 ∧
        Chains hashFn (Guarded.atomic (program hashFn hpos) spec x c).1 (mapStep m c).1 :=
    fun x m c hxm _ => hxm.step c
  obtain ⟨hreplies, hchains⟩ := Service.simulation hstep chains_new
    (Service.allowed_of_forall (fun _ _ => trivial) _ cs)
  rw [hcs]
  refine ⟨_, region, steps, hexpl, ?_, hchains⟩
  rw [hlog, Service.history, hreplies, Service.history]

/-- **The hash map is linearizable.**  Whatever the order in which the threads take their
steps: no thread follows a null or a dangling pointer, the replies are those of the calls
made one after the other, in the order in which they give their locks back, and when no call
is under way the memory holds the map after these calls and nothing else. -/
theorem serializable [DecidableEq ι] (hashFn : K → ℕ) (hpos : 0 < n)
    (h : Guarded.Reachable (program hashFn hpos) (State.new ι n K V) s) :
    (∀ i t, s.threads i ≠ .failed t) ∧
      s.log = Service.history mapStep (.ofSize hashFn n hpos) (s.log.map Prod.fst) ∧
      ((∀ i c p, s.threads i ≠ .inside c p) →
        LinkedHashMap.Represents (s.map hashFn hpos)
          (Service.run mapStep (.ofSize hashFn n hpos) (s.log.map Prod.fst))) := by
  obtain ⟨x, region, steps, hexpl, hlog, hchains⟩ := exists_explained h
  exact ⟨hexpl.unfailed, hlog, fun hout => represents_map hexpl hout hchains⟩

/-- After the insertion, with the other thread still on its way to the lock. -/
theorem serializable_overlapping : ∃ s : State Bool 2 ℕ ℕ,
    s.threads true = .waiting (.find 1 0) ∧
      LinkedHashMap.Represents (s.map id Nat.two_pos)
        ((ConcurrentHashMap.ofSize id 2 Nat.two_pos).insert 1 10) := by
  obtain ⟨s, h, hlog, hidle, hwaiting⟩ := exists_reachable
  obtain ⟨-, -, hrep⟩ := serializable id Nat.two_pos h
  rw [hlog] at hrep
  refine ⟨s, hwaiting, hrep fun i c p hi => ?_⟩
  cases i with
  | false =>
    rw [hidle] at hi
    cases hi
  | true =>
    rw [hwaiting] at hi
    cases hi

/-- **Every call returns**: with no new calls the threads come to an end in every order of
their steps, and they do not stop before all of them are idle. -/
theorem every_call_returns [DecidableEq ι] [Finite ι] (hashFn : K → ℕ) (hpos : 0 < n)
    (h : Guarded.Reachable (program hashFn hpos) (State.new ι n K V) s) :
    Acc (fun s' s => Guarded.Advance (program hashFn hpos) s s') s ∧
      ((∃ s', Guarded.Advance (program hashFn hpos) s s') ∨ ∀ i, s.threads i = .idle) := by
  obtain ⟨x, region, steps, hexpl, -, -⟩ := exists_explained h
  exact ⟨hexpl.acc (laws hashFn hpos), hexpl.exists_advance⟩

/-- The thread that waits can go on. -/
theorem every_call_returns_overlapping : ∃ s : State Bool 2 ℕ ℕ,
    s.threads true = .waiting (.find 1 0) ∧
      ∃ s', Guarded.Advance (program id Nat.two_pos) s s' := by
  obtain ⟨s, h, -, -, hwaiting⟩ := exists_reachable
  refine ⟨s, hwaiting, (every_call_returns id Nat.two_pos h).2.resolve_right fun hidle => ?_⟩
  have hi := hidle true
  rw [hwaiting] at hi
  cases hi

/-- **Nothing is left of the map.**  Whatever the threads have done, once all their calls have
returned, the destructor deletes the nodes there are, each of them once and nothing else. -/
theorem nothing_left [DecidableEq ι] (hashFn : K → ℕ) (hpos : 0 < n)
    (h : Guarded.Reachable (program hashFn hpos) (State.new ι n K V) s)
    (hidle : ∀ i, s.threads i = .idle) :
    ∃ p, (s.map hashFn hpos).destroy = .ok p ∧ p.heap = ∅ := by
  obtain ⟨x, region, steps, hexpl, -, hchains⟩ := exists_explained h
  refine (represents_map hexpl (fun i c p hi => ?_) hchains).destroy
  rw [hidle i] at hi
  cases hi

/-- After the insertion there is a node to delete. -/
theorem nothing_left_inserted : ∃ s : State Unit 2 ℕ ℕ, 7 ∈ s.heap ∧
    ∃ p, (s.map id Nat.two_pos).destroy = .ok p ∧ p.heap = ∅ := by
  have h₀ : Guarded.Reachable (program id Nat.two_pos) (State.new Unit 2 ℕ ℕ)
    (State.new Unit 2 ℕ ℕ) := .refl
  have h₁ := h₀.tail (.call (i := ()) (.insert 1 10) rfl)
  have h₂ := h₁.tail (.advance (.enter (i := ()) (c := .insert 1 10) rfl fun i c p hi => by
    cases i; cases hi))
  have h₃ := h₂.tail (.advance (.move (i := ()) (a := 7) rfl (by decide) rfl))
  have h₄ := h₃.tail (.advance (.move (i := ()) (a := 7) rfl (by decide) rfl))
  have h₅ := h₄.tail (.advance (.move (i := ()) (a := 7) rfl (by decide) rfl))
  have h₆ := h₅.tail (.advance (.move (i := ()) (a := 7) rfl (by decide) rfl))
  have h₇ := h₆.tail (.advance (.move (i := ()) (a := 8) rfl (by decide) rfl))
  have h₈ := h₇.tail (.advance (.leave (i := ()) (a := 8) rfl (by decide) rfl))
  exact ⟨_, by decide, nothing_left id Nat.two_pos h₈ fun i => by cases i; rfl⟩

end HashSections

end WebServer
