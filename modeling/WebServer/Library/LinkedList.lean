import Mathlib.Data.Finmap
import Mathlib.Data.List.TakeWhile
import Mathlib.Tactic.Common

/-!
# Linked lists in a memory

Cells with a `next` pointer in a memory of allocated addresses, and what it means that
a pointer leads through some of them.

* `Segment` — the cells from one pointer to another.  A segment that ends in null is
  determined by the memory (`Segment.unique`), so no cell occurs in it twice
  (`Segment.nodup`): it is finite and has no cycle.
* `seek` — the walk with a pointer to the current cell and one to the cell before it;
  `seek_eq` says where it stops.
* `Segment.setItem`, `push`, `cut`, `cutFirst` — what the usual assignments do to a list.
* `Edit` — an operation on one list that leaves the rest of the memory alone, and
  `Forest.edit`, by which it is one on a memory with many lists.
-/

namespace LinkedList

variable {A α : Type*}

/-- A cell: the pointer to the next one, with `none` for null, and what it holds. -/
structure Cell (A α : Type*) where
  next : Option A
  item : α
  deriving DecidableEq, Repr

/-- The allocated addresses, with their cells. -/
abbrev Heap (A α : Type*) := Finmap fun _ : A => Cell A α

/-- The ways in which a pointer program fails. -/
inductive Trap
  /-- A null pointer was followed. -/
  | null
  /-- A pointer was followed to memory that is not allocated. -/
  | dangling
  /-- A walk came back to a cell it had seen, and never ends. -/
  | endless
  deriving DecidableEq, Repr

variable [DecidableEq A]

/-- An assignment to a field of the cell behind a pointer. -/
def store (heap : Heap A α) (pointer : Option A) (change : Cell A α → Cell A α) :
    Except Trap (Heap A α) :=
  match pointer with
  | none => .error .null
  | some a =>
    match heap.lookup a with
    | none => .error .dangling
    | some cell => .ok (heap.insert a (change cell))

theorem store_eq {heap : Heap A α} {a : A} {cell : Cell A α} (h : heap.lookup a = some cell)
    (change : Cell A α → Cell A α) :
    store heap (some a) change = .ok (heap.insert a (change cell)) := by
  simp only [store, h]

/-! ## Segments -/

/-- The pointer `first` leads through the cells of the list, given by their addresses and
items, to the pointer `last`. -/
def Segment (heap : Heap A α) : Option A → List (A × α) → Option A → Prop
  | first, [], last => first = last
  | first, c :: cells, last =>
    first = some c.1 ∧ ∃ next, heap.lookup c.1 = some ⟨next, c.2⟩ ∧ Segment heap next cells last

/-- The addresses of some cells. -/
def addresses (cells : List (A × α)) : List A := cells.map Prod.fst

omit [DecidableEq A] in
theorem mem_addresses_cons {a : A} {c : A × α} {cells : List (A × α)} :
    a ∈ addresses (c :: cells) ↔ a = c.1 ∨ a ∈ addresses cells := List.mem_cons

omit [DecidableEq A] in
theorem addresses_append (cells cells' : List (A × α)) :
    addresses (cells ++ cells') = addresses cells ++ addresses cells' := List.map_append

theorem segment_append {heap : Heap A α} {cells cells' : List (A × α)} {first last : Option A} :
    Segment heap first (cells ++ cells') last ↔
      ∃ middle, Segment heap first cells middle ∧ Segment heap middle cells' last := by
  induction cells generalizing first with
  | nil => exact ⟨fun h => ⟨first, rfl, h⟩, fun ⟨_, hm, h⟩ => hm ▸ h⟩
  | cons c cells ih =>
    constructor
    · rintro ⟨hfirst, next, hcell, h⟩
      obtain ⟨middle, h₁, h₂⟩ := ih.1 h
      exact ⟨middle, ⟨hfirst, next, hcell, h₁⟩, h₂⟩
    · rintro ⟨middle, ⟨hfirst, next, hcell, h₁⟩, h₂⟩
      exact ⟨hfirst, next, hcell, ih.2 ⟨middle, h₁, h₂⟩⟩

/-- **Frame**: a segment depends on its own cells only. -/
theorem Segment.congr {heap heap' : Heap A α} {cells : List (A × α)} {first last : Option A}
    (h : Segment heap first cells last)
    (hsame : ∀ a ∈ addresses cells, heap'.lookup a = heap.lookup a) :
    Segment heap' first cells last := by
  induction cells generalizing first with
  | nil => exact h
  | cons c cells ih =>
    obtain ⟨hfirst, next, hcell, hrest⟩ := h
    refine ⟨hfirst, next, ?_, ih hrest fun a ha => hsame a (List.mem_cons_of_mem _ ha)⟩
    rw [hsame c.1 (List.mem_cons_self ..), hcell]

theorem Segment.lookup {heap : Heap A α} {cells : List (A × α)} {first last : Option A}
    (h : Segment heap first cells last) : ∀ a ∈ addresses cells, (heap.lookup a).isSome := by
  induction cells generalizing first with
  | nil => exact fun a ha => absurd ha List.not_mem_nil
  | cons c cells ih =>
    obtain ⟨-, next, hcell, hrest⟩ := h
    intro a ha
    rcases List.mem_cons.1 ha with rfl | ha
    · rw [hcell]
      rfl
    · exact ih hrest a ha

/-- A pointer to some cells is not null. -/
theorem Segment.ne_none {heap : Heap A α} {cells : List (A × α)} {first last : Option A}
    (h : Segment heap first cells last) (hne : cells ≠ []) : first ≠ none := by
  cases cells with
  | nil => exact absurd rfl hne
  | cons c cells =>
    rw [h.1]
    exact Option.some_ne_none _

/-- **The memory determines the list** a pointer leads through to null. -/
theorem Segment.unique {heap : Heap A α} {cells cells' : List (A × α)} {first : Option A}
    (h : Segment heap first cells none) (h' : Segment heap first cells' none) :
    cells = cells' := by
  induction cells generalizing first cells' with
  | nil =>
    cases cells' with
    | nil => rfl
    | cons c' cells' =>
      rw [h] at h'
      cases h'.1
  | cons c cells ih =>
    obtain ⟨hfirst, next, hcell, hrest⟩ := h
    cases cells' with
    | nil =>
      rw [h'] at hfirst
      cases hfirst
    | cons c' cells' =>
      obtain ⟨hfirst', next', hcell', hrest'⟩ := h'
      have haddr : c.1 = c'.1 := Option.some.inj (hfirst.symm.trans hfirst')
      rw [haddr, hcell', Option.some.injEq, Cell.mk.injEq] at hcell
      obtain ⟨rfl, hitem⟩ := hcell
      rw [ih hrest hrest', Prod.ext haddr hitem.symm]

/-- **No cell occurs twice** on the way to null. -/
theorem Segment.nodup {heap : Heap A α} {cells : List (A × α)} {first : Option A}
    (h : Segment heap first cells none) : (addresses cells).Nodup := by
  induction cells generalizing first with
  | nil => exact List.nodup_nil
  | cons c cells ih =>
    obtain ⟨hfirst, next, hcell, hrest⟩ := h
    refine List.nodup_cons.2 ⟨fun hmem => ?_, ih hrest⟩
    -- the list would be a proper part of itself
    obtain ⟨c', hc', haddr⟩ := List.mem_map.1 hmem
    obtain ⟨before, after, rfl⟩ := List.append_of_mem hc'
    obtain ⟨middle, -, hsuffix⟩ := segment_append.1 hrest
    have hmiddle : middle = some c.1 := by rw [hsuffix.1, haddr]
    rw [hmiddle] at hsuffix
    have hwhole : Segment heap (some c.1) (c :: (before ++ c' :: after)) none :=
      ⟨rfl, next, hcell, hrest⟩
    have hlen := congrArg List.length (hwhole.unique hsuffix)
    simp only [List.length_cons, List.length_append] at hlen
    omega

/-- A cell of a list is neither before nor after itself. -/
theorem Segment.notMem_others {heap : Heap A α} {before after : List (A × α)} {c : A × α}
    {first : Option A} (h : Segment heap first (before ++ c :: after) none) :
    c.1 ∉ addresses before ∧ c.1 ∉ addresses after := by
  have hnd := h.nodup
  rw [addresses_append, List.nodup_append] at hnd
  exact ⟨fun hc => hnd.2.2 _ hc _ (List.mem_cons_self ..) rfl, (List.nodup_cons.1 hnd.2.1).1⟩

/-- The addresses of a list without one of its cells. -/
theorem Segment.mem_addresses_others {heap : Heap A α} {before after : List (A × α)}
    {c : A × α} {first : Option A} (h : Segment heap first (before ++ c :: after) none) (a : A) :
    a ∈ addresses (before ++ after) ↔ a ∈ addresses (before ++ c :: after) ∧ a ≠ c.1 := by
  obtain ⟨hbefore, hafter⟩ := h.notMem_others
  rw [addresses_append, addresses_append, List.mem_append, List.mem_append, mem_addresses_cons]
  constructor
  · intro ha
    refine ⟨ha.imp_right Or.inr, ?_⟩
    rintro rfl
    exact ha.elim hbefore hafter
  · rintro ⟨ha, hne⟩
    exact ha.imp_right fun ha => ha.resolve_left hne

/-- Only the first cell of a list is where its pointer points. -/
theorem Segment.ne_some {heap : Heap A α} {before after : List (A × α)} {c : A × α}
    {first : Option A} (h : Segment heap first (before ++ c :: after) none) (hne : before ≠ []) :
    first ≠ some c.1 := by
  have hbefore := h.notMem_others.1
  cases before with
  | nil => exact absurd rfl hne
  | cons d before =>
    rintro rfl
    exact hbefore (mem_addresses_cons.2 (Or.inl (Option.some.inj h.1)))

/-- There are at least as many cells in the memory as on the list. -/
theorem Segment.length_le {heap : Heap A α} {cells : List (A × α)} {first : Option A}
    (h : Segment heap first cells none) : cells.length ≤ heap.keys.card := by
  have hsub : (addresses cells).toFinset ⊆ heap.keys := by
    intro a ha
    rw [Finmap.mem_keys, ← Finmap.lookup_isSome]
    exact h.lookup a (List.mem_toFinset.1 ha)
  have hcard := Finset.card_le_card hsub
  rwa [List.toFinset_card_of_nodup h.nodup, addresses, List.length_map] at hcard

/-- The list without its last cell, whose pointer is followed. -/
theorem segment_concat {heap : Heap A α} {cells : List (A × α)} {c : A × α}
    {first last : Option A} :
    Segment heap first (cells ++ [c]) last ↔
      Segment heap first cells (some c.1) ∧ heap.lookup c.1 = some ⟨last, c.2⟩ := by
  rw [segment_append]
  constructor
  · rintro ⟨middle, hcells, rfl, next, hcell, rfl⟩
    exact ⟨hcells, hcell⟩
  · rintro ⟨hcells, hcell⟩
    exact ⟨some c.1, hcells, rfl, last, hcell, rfl⟩

theorem Segment.exists_next {heap : Heap A α} {before after : List (A × α)} {c : A × α}
    {first last : Option A} (h : Segment heap first (before ++ c :: after) last) :
    ∃ next, heap.lookup c.1 = some ⟨next, c.2⟩ := by
  obtain ⟨-, -, -, next, hcell, -⟩ := segment_append.1 h
  exact ⟨next, hcell⟩

/-! ## Assignments -/

theorem Segment.insert_of_notMem {heap : Heap A α} {cells : List (A × α)}
    {first last : Option A} (h : Segment heap first cells last) {a : A}
    (ha : a ∉ addresses cells) (cell : Cell A α) :
    Segment (heap.insert a cell) first cells last :=
  h.congr fun _ hb => Finmap.lookup_insert_of_ne heap fun hba => ha (hba ▸ hb)

theorem Segment.erase_of_notMem {heap : Heap A α} {cells : List (A × α)}
    {first last : Option A} (h : Segment heap first cells last) {a : A}
    (ha : a ∉ addresses cells) : Segment (heap.erase a) first cells last :=
  h.congr fun _ hb => Finmap.lookup_erase_ne fun hba => ha (hba ▸ hb)

/-- The last cell of a segment gets a new pointer and a new item. -/
theorem Segment.overwrite {heap : Heap A α} {cells : List (A × α)} {c : A × α}
    {first last : Option A} (h : Segment heap first (cells ++ [c]) last)
    (hc : c.1 ∉ addresses cells) (last' : Option A) (item : α) :
    Segment (heap.insert c.1 ⟨last', item⟩) first (cells ++ [(c.1, item)]) last' :=
  segment_concat.2 ⟨(segment_concat.1 h).1.insert_of_notMem hc _, Finmap.lookup_insert heap⟩

/-- A cell has one pointer. -/
theorem next_eq {heap : Heap A α} {a : A} {next next' : Option A} {item item' : α}
    (h : heap.lookup a = some ⟨next, item⟩) (h' : heap.lookup a = some ⟨next', item'⟩) :
    next = next' :=
  congrArg Cell.next (Option.some.inj (h.symm.trans h'))

/-- A cell in the middle gets a new item. -/
theorem Segment.setItem {heap : Heap A α} {before after : List (A × α)} {c : A × α}
    {first : Option A} (h : Segment heap first (before ++ c :: after) none) {next : Option A}
    (hnext : heap.lookup c.1 = some ⟨next, c.2⟩) (item : α) :
    Segment (heap.insert c.1 ⟨next, item⟩) first (before ++ (c.1, item) :: after) none := by
  obtain ⟨hbefore, hafter⟩ := h.notMem_others
  rw [List.append_cons] at h ⊢
  obtain ⟨middle, hcells, hrest⟩ := segment_append.1 h
  obtain rfl : middle = next := next_eq (segment_concat.1 hcells).2 hnext
  exact segment_append.2 ⟨middle, hcells.overwrite hbefore middle item,
    hrest.insert_of_notMem hafter _⟩

/-- The last cell of a list gets a new cell behind it. -/
theorem Segment.push {heap : Heap A α} {before : List (A × α)} {c : A × α} {first : Option A}
    (h : Segment heap first (before ++ [c]) none) {a : A} (ha : a ∉ heap) (item : α) :
    Segment ((heap.insert a ⟨none, item⟩).insert c.1 ⟨some a, c.2⟩) first
      (before ++ [c] ++ [(a, item)]) none := by
  have hnew : a ∉ addresses (before ++ [c]) := fun hmem =>
    ha (Finmap.lookup_isSome.1 (h.lookup a hmem))
  have hne : a ≠ c.1 := by
    rintro rfl
    exact hnew (by simp [addresses])
  refine segment_concat.2 ⟨?_, ?_⟩
  · exact (h.insert_of_notMem hnew _).overwrite h.notMem_others.1 (some a) c.2
  · rw [Finmap.lookup_insert_of_ne _ hne, Finmap.lookup_insert]

/-- The last cell of a list gets the pointer to a cell that is on no list. -/
theorem Segment.link {heap : Heap A α} {before : List (A × α)} {c : A × α} {first : Option A}
    (h : Segment heap first (before ++ [c]) none) {a : A} {item : α}
    (ha : heap.lookup a = some ⟨none, item⟩) (hnew : a ∉ addresses (before ++ [c])) :
    Segment (heap.insert c.1 ⟨some a, c.2⟩) first (before ++ [c] ++ [(a, item)]) none := by
  have hne : a ≠ c.1 := by
    rintro rfl
    exact hnew (by simp [addresses])
  refine segment_concat.2 ⟨h.overwrite h.notMem_others.1 (some a) c.2, ?_⟩
  rw [Finmap.lookup_insert_of_ne _ hne, ha]

/-- The cell behind `c` is taken out of the list. -/
theorem Segment.unlink {heap : Heap A α} {before after : List (A × α)} {c d : A × α}
    {first : Option A} (h : Segment heap first (before ++ [c] ++ d :: after) none)
    {next : Option A} (hnext : heap.lookup d.1 = some ⟨next, d.2⟩) :
    Segment (heap.insert c.1 ⟨next, c.2⟩) first (before ++ [c] ++ after) none := by
  obtain ⟨middle, hcells, -, next', hcell, hrest⟩ := segment_append.1 h
  obtain rfl : next = next' := next_eq hnext hcell
  rw [← List.append_cons] at h
  obtain ⟨hc, hc'⟩ := h.notMem_others
  have hc' : c.1 ∉ addresses after := fun hmem => hc' (List.mem_cons_of_mem _ hmem)
  exact segment_append.2 ⟨next, hcells.overwrite hc next c.2, hrest.insert_of_notMem hc' _⟩

/-- The cell behind `c` is taken out of the list and given back. -/
theorem Segment.cut {heap : Heap A α} {before after : List (A × α)} {c d : A × α}
    {first : Option A} (h : Segment heap first (before ++ [c] ++ d :: after) none)
    {next : Option A} (hnext : heap.lookup d.1 = some ⟨next, d.2⟩) :
    Segment ((heap.insert c.1 ⟨next, c.2⟩).erase d.1) first (before ++ [c] ++ after) none := by
  obtain ⟨hd, hd'⟩ := h.notMem_others
  obtain ⟨middle, hcells, -, next', hcell, hrest⟩ := segment_append.1 h
  obtain rfl : next = next' := next_eq hnext hcell
  rw [← List.append_cons] at h
  obtain ⟨hc, hc'⟩ := h.notMem_others
  have hc' : c.1 ∉ addresses after := fun hmem => hc' (List.mem_cons_of_mem _ hmem)
  exact segment_append.2 ⟨next, (hcells.overwrite hc next c.2).erase_of_notMem hd,
    (hrest.insert_of_notMem hc' _).erase_of_notMem hd'⟩

/-- The first cell is taken out of the list and given back. -/
theorem Segment.cutFirst {heap : Heap A α} {cells : List (A × α)} {c : A × α}
    {first : Option A} (h : Segment heap first (c :: cells) none) {next : Option A}
    (hnext : heap.lookup c.1 = some ⟨next, c.2⟩) :
    Segment (heap.erase c.1) next cells none := by
  have hnot : c.1 ∉ addresses cells := (List.nodup_cons.1 h.nodup).1
  obtain ⟨-, next', hcell, hrest⟩ := h
  obtain rfl : next = next' := next_eq hnext hcell
  exact hrest.erase_of_notMem hnot

/-! ## Walks -/

/-- The walk to the first cell whose item is to stop it, with the cell before it.
`fuel` is the number of pointers it looks at. -/
def seek (heap : Heap A α) (stop : α → Bool) :
    ℕ → Option A → Option A → Except Trap (Option A × Option A)
  | 0, _, _ => .error .endless
  | _ + 1, prev, none => .ok (prev, none)
  | fuel + 1, prev, some node =>
    match heap.lookup node with
    | none => .error .dangling
    | some cell =>
      if stop cell.item then .ok (prev, some node) else seek heap stop fuel (some node) cell.next

/-- The walk that gives back every cell. -/
def release (heap : Heap A α) : ℕ → Option A → Except Trap (Heap A α)
  | 0, _ => .error .endless
  | _ + 1, none => .ok heap
  | fuel + 1, some node =>
    match heap.lookup node with
    | none => .error .dangling
    | some cell => release (heap.erase node) fuel cell.next

/-- The address of the last cell, or `prev` if there is none. -/
def lastAddress (prev : Option A) : List (A × α) → Option A
  | [] => prev
  | c :: cells => lastAddress (some c.1) cells

omit [DecidableEq A] in
@[simp] theorem lastAddress_concat (prev : Option A) (cells : List (A × α)) (c : A × α) :
    lastAddress prev (cells ++ [c]) = some c.1 := by
  induction cells generalizing prev with
  | nil => rfl
  | cons c' cells ih => exact ih _

omit [DecidableEq A] in
/-- Every list falls apart in front of the first cell that stops the walk. -/
theorem exists_split (stop : α → Bool) (cells : List (A × α)) :
    ∃ before after, cells = before ++ after ∧ (∀ c ∈ before, stop c.2 = false) ∧
      ∀ c ∈ after.head?, stop c.2 = true := by
  induction cells with
  | nil => exact ⟨[], [], rfl, by simp, by simp⟩
  | cons c cells ih =>
    cases hc : stop c.2 with
    | true => exact ⟨[], c :: cells, rfl, by simp, by simpa using hc⟩
    | false =>
      obtain ⟨before, after, rfl, hbefore, hafter⟩ := ih
      exact ⟨c :: before, after, rfl, List.forall_mem_cons.2 ⟨hc, hbefore⟩, hafter⟩

/-- **Where the walk stops.** -/
theorem seek_eq {heap : Heap A α} {stop : α → Bool} {before after : List (A × α)}
    {first : Option A} (h : Segment heap first (before ++ after) none)
    (hbefore : ∀ c ∈ before, stop c.2 = false) (hafter : ∀ c ∈ after.head?, stop c.2 = true)
    {fuel : ℕ} (hfuel : before.length < fuel) (prev : Option A) :
    seek heap stop fuel prev first = .ok (lastAddress prev before, after.head?.map Prod.fst) := by
  induction before generalizing first fuel prev with
  | nil =>
    obtain ⟨fuel, rfl⟩ := Nat.exists_eq_add_one.2 (Nat.zero_lt_of_lt hfuel)
    cases after with
    | nil =>
      obtain rfl : first = none := h
      rfl
    | cons c after =>
      obtain ⟨rfl, next, hcell, -⟩ := h
      have hstop : stop c.2 = true := hafter c rfl
      simp only [seek, hcell, hstop, if_true]
      rfl
  | cons c before ih =>
    obtain ⟨fuel, rfl⟩ := Nat.exists_eq_add_one.2 (Nat.zero_lt_of_lt hfuel)
    obtain ⟨rfl, next, hcell, hrest⟩ := h
    rw [List.forall_mem_cons] at hbefore
    rw [List.length_cons] at hfuel
    simp only [seek, hcell, hbefore.1, Bool.false_eq_true, if_false]
    exact ih hrest hbefore.2 (by omega) (some c.1)

/-- **The walk gives back the cells of the list**, and nothing else. -/
theorem release_eq {heap : Heap A α} {cells : List (A × α)} {first : Option A}
    (h : Segment heap first cells none) {fuel : ℕ} (hfuel : cells.length < fuel) :
    ∃ heap', release heap fuel first = .ok heap' ∧
      ∀ a, heap'.lookup a = if a ∈ addresses cells then none else heap.lookup a := by
  induction cells generalizing heap first fuel with
  | nil =>
    obtain ⟨fuel, rfl⟩ := Nat.exists_eq_add_one.2 (Nat.zero_lt_of_lt hfuel)
    obtain rfl : first = none := h
    exact ⟨heap, rfl, fun a => (if_neg List.not_mem_nil).symm⟩
  | cons c cells ih =>
    obtain ⟨fuel, rfl⟩ := Nat.exists_eq_add_one.2 (Nat.zero_lt_of_lt hfuel)
    obtain ⟨rfl, next, hcell, -⟩ := id h
    rw [List.length_cons] at hfuel
    have hfuel' : cells.length < fuel := by omega
    obtain ⟨heap', hrelease, hlookup⟩ := ih (h.cutFirst hcell) hfuel'
    refine ⟨heap', by simpa only [release, hcell] using hrelease, fun a => ?_⟩
    rw [hlookup, if_congr mem_addresses_cons rfl rfl]
    by_cases ha : a = c.1
    · rw [ha, Finmap.lookup_erase, ite_self, if_pos (Or.inl rfl)]
    · simp only [ha, false_or, Finmap.lookup_erase_ne ha]

/-! ## Many lists in one memory -/

/-- An operation that turns the list with the cells `l` into the one with the cells `l'`
and does not touch the rest of the memory. -/
structure Edit (heap heap' : Heap A α) (l l' : List A) : Prop where
  frame : ∀ a ∈ heap, a ∉ l → heap'.lookup a = heap.lookup a
  fresh : ∀ a ∈ l', a ∈ l ∨ a ∉ heap
  owned : ∀ a ∈ heap', a ∈ l' ∨ (a ∈ heap ∧ a ∉ l)

theorem Edit.refl (heap : Heap A α) (l : List A) : Edit heap heap l l where
  frame := fun _ _ _ => rfl
  fresh := fun _ ha => Or.inl ha
  owned := fun a ha => (em (a ∈ l)).imp_right fun hl => ⟨ha, hl⟩

theorem Edit.trans {heap heap' heap'' : Heap A α} {l l' l'' : List A}
    (h : Edit heap heap' l l') (h' : Edit heap' heap'' l' l'') : Edit heap heap'' l l'' := by
  have hkeep : ∀ a ∈ heap, a ∉ l → a ∈ heap' ∧ a ∉ l' := by
    intro a ha hl
    refine ⟨?_, fun hl' => (h.fresh a hl').elim hl fun hn => hn ha⟩
    rwa [← Finmap.lookup_isSome, h.frame a ha hl, Finmap.lookup_isSome]
  refine ⟨fun a ha hl => ?_, fun a ha => ?_, fun a ha => ?_⟩
  · obtain ⟨ha', hl'⟩ := hkeep a ha hl
    rw [h'.frame a ha' hl', h.frame a ha hl]
  · rcases h'.fresh a ha with hl' | hn
    · exact h.fresh a hl'
    · by_contra hcon
      rw [not_or, not_not] at hcon
      exact hn (hkeep a hcon.2 hcon.1).1
  · rcases h'.owned a ha with hl'' | ⟨ha', hl'⟩
    · exact Or.inl hl''
    · exact Or.inr ((h.owned a ha').resolve_left hl')

/-- A new cell. -/
theorem Edit.alloc {heap : Heap A α} {l l' : List A} {a : A} (ha : a ∉ heap)
    (hl : ∀ x, x ∈ l' ↔ x = a ∨ x ∈ l) (cell : Cell A α) :
    Edit heap (heap.insert a cell) l l' where
  frame := fun x hx _ => Finmap.lookup_insert_of_ne _ fun hxa => ha (hxa ▸ hx)
  fresh := by
    intro x hx
    rcases (hl x).1 hx with rfl | hx
    · exact Or.inr ha
    · exact Or.inl hx
  owned := by
    intro x hx
    rw [Finmap.mem_insert] at hx
    by_cases hmem : x ∈ l'
    · exact Or.inl hmem
    · rw [hl, not_or] at hmem
      exact Or.inr ⟨hx.resolve_left hmem.1, hmem.2⟩

/-- An assignment to a cell of the list. -/
theorem Edit.write {heap : Heap A α} {l l' : List A} {a : A} (ha : a ∈ l)
    (hl : ∀ x, x ∈ l' ↔ x ∈ l) (cell : Cell A α) : Edit heap (heap.insert a cell) l l' where
  frame := fun x _ hx => Finmap.lookup_insert_of_ne _ fun hxa => hx (hxa ▸ ha)
  fresh := fun x hx => Or.inl ((hl x).1 hx)
  owned := by
    intro x hx
    rw [Finmap.mem_insert] at hx
    by_cases hmem : x ∈ l
    · exact Or.inl ((hl x).2 hmem)
    · exact Or.inr ⟨hx.resolve_left fun hxa => hmem (hxa ▸ ha), hmem⟩

/-- A cell of the list is given back. -/
theorem Edit.free {heap : Heap A α} {l l' : List A} {a : A} (ha : a ∈ l)
    (hl : ∀ x, x ∈ l' ↔ x ∈ l ∧ x ≠ a) : Edit heap (heap.erase a) l l' where
  frame := fun x _ hx => Finmap.lookup_erase_ne fun hxa => hx (hxa ▸ ha)
  fresh := fun x hx => Or.inl ((hl x).1 hx).1
  owned := by
    intro x hx
    rw [Finmap.mem_erase] at hx
    by_cases hmem : x ∈ l
    · exact Or.inl ((hl x).2 ⟨hmem, hx.1⟩)
    · exact Or.inr ⟨hx.2, hmem⟩

/-- All of them are. -/
theorem Edit.freeAll {heap heap' : Heap A α} {l : List A}
    (hlookup : ∀ x, heap'.lookup x = if x ∈ l then none else heap.lookup x) :
    Edit heap heap' l [] where
  frame := fun x _ hx => by rw [hlookup, if_neg hx]
  fresh := fun x hx => absurd hx List.not_mem_nil
  owned := by
    intro x hx
    rw [← Finmap.lookup_isSome, hlookup] at hx
    by_cases hmem : x ∈ l
    · rw [if_pos hmem] at hx
      cases hx
    · rw [if_neg hmem, Finmap.lookup_isSome] at hx
      exact Or.inr ⟨hx, hmem⟩

/-- A memory that is shared out among `n` lists: each is linked from its own pointer, no
cell is on two of them, and none is on no list. -/
structure Forest (heap : Heap A α) (heads : ℕ → Option A) (n : ℕ)
    (lists : ℕ → List (A × α)) : Prop where
  linked : ∀ i < n, Segment heap (heads i) (lists i) none
  disjoint : ∀ i < n, ∀ j < n, i ≠ j → ∀ a ∈ addresses (lists i), a ∉ addresses (lists j)
  owned : ∀ a ∈ heap, ∃ i < n, a ∈ addresses (lists i)

/-- **An operation on one list leaves the others as they are.** -/
theorem Forest.edit {heap heap' : Heap A α} {heads : ℕ → Option A} {n : ℕ}
    {lists : ℕ → List (A × α)} (h : Forest heap heads n lists) {i : ℕ} (hi : i < n)
    {head' : Option A} {cells' : List (A × α)}
    (he : Edit heap heap' (addresses (lists i)) (addresses cells'))
    (hs : Segment heap' head' cells' none) :
    Forest heap' (Function.update heads i head') n (Function.update lists i cells') where
  linked := by
    intro j hj
    by_cases hji : j = i
    · subst hji
      rwa [Function.update_self, Function.update_self]
    · rw [Function.update_of_ne hji, Function.update_of_ne hji]
      refine (h.linked j hj).congr fun a ha => he.frame a ?_ (h.disjoint j hj i hi hji a ha)
      exact Finmap.lookup_isSome.1 ((h.linked j hj).lookup a ha)
  disjoint := by
    have hother : ∀ j < n, j ≠ i → ∀ a ∈ addresses (lists j), a ∉ addresses cells' := by
      intro j hj hji a ha ha'
      rcases he.fresh a ha' with hai | hnew
      · exact h.disjoint j hj i hi hji a ha hai
      · exact hnew (Finmap.lookup_isSome.1 ((h.linked j hj).lookup a ha))
    intro j hj k hk hjk a ha
    by_cases hji : j = i
    · subst hji
      rw [Function.update_self] at ha
      rw [Function.update_of_ne (Ne.symm hjk)]
      exact fun ha' => hother k hk (Ne.symm hjk) a ha' ha
    · rw [Function.update_of_ne hji] at ha
      by_cases hki : k = i
      · subst hki
        rw [Function.update_self]
        exact hother j hj hji a ha
      · rw [Function.update_of_ne hki]
        exact h.disjoint j hj k hk hjk a ha
  owned := by
    intro a ha
    rcases he.owned a ha with hmem | ⟨hmem, hnot⟩
    · exact ⟨i, hi, by rwa [Function.update_self]⟩
    · obtain ⟨j, hj, haj⟩ := h.owned a hmem
      have hji : j ≠ i := by
        rintro rfl
        exact hnot haj
      exact ⟨j, hj, by rwa [Function.update_of_ne hji]⟩

end LinkedList
