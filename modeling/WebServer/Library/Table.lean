import Mathlib

/-!
# Finite tables

Two small theories of finite maps that programs keep.

* `subscript m k dflt` — the access `m[k]` of a map that *inserts* a default
  value when the key is absent.  Read as a map with a default, the table is not
  changed by it (`getD_lookup_subscript`), although its key set may grow
  (`mem_subscript`, and `foldl_grows` for runs).
* `Chain` — an association list walked from its head, in which every key occurs
  at most once by construction: `find`, `insert` (update in place or append at
  the end) and `erase`, with the three laws of a finite map (`find_insert`,
  `find_erase`, `find_empty`).
-/

namespace Table

/-! ## Inserting access -/

section Subscript

variable {K V : Type*} [DecidableEq K]

/-- `m[k]`: the value at `k`, which is first set to `dflt` if there is none. -/
def subscript (m : Finmap (fun _ : K => V)) (k : K) (dflt : V) :
    Finmap (fun _ : K => V) × V :=
  match m.lookup k with
  | some v => (m, v)
  | none => (m.insert k dflt, dflt)

@[simp] theorem subscript_snd (m : Finmap (fun _ : K => V)) (k : K) (dflt : V) :
    (subscript m k dflt).2 = (m.lookup k).getD dflt := by
  unfold subscript
  cases m.lookup k <;> rfl

theorem lookup_subscript (m : Finmap (fun _ : K => V)) (k k' : K) (dflt : V) :
    (subscript m k dflt).1.lookup k' =
      if k' = k then some ((m.lookup k).getD dflt) else m.lookup k' := by
  unfold subscript
  cases hk : m.lookup k with
  | some v =>
    by_cases h : k' = k
    · subst h; simp [hk]
    · simp [h]
  | none =>
    by_cases h : k' = k
    · subst h; simp
    · rw [if_neg h]
      exact Finmap.lookup_insert_of_ne m h

/-- **Reading through the default, an inserting access changes nothing.** -/
@[simp] theorem getD_lookup_subscript (m : Finmap (fun _ : K => V)) (k k' : K) (dflt : V) :
    ((subscript m k dflt).1.lookup k').getD dflt = (m.lookup k').getD dflt := by
  rw [lookup_subscript]
  by_cases h : k' = k
  · subst h; simp
  · rw [if_neg h]

/-- An entry, once there, stays as it is. -/
theorem lookup_subscript_of_mem {m : Finmap (fun _ : K => V)} {k' : K} (h : k' ∈ m) (k : K)
    (dflt : V) : (subscript m k dflt).1.lookup k' = m.lookup k' := by
  obtain ⟨v, hv⟩ := Finmap.mem_iff.1 h
  rw [lookup_subscript]
  by_cases hk : k' = k
  · rw [if_pos hk, ← hk, hv, Option.getD_some]
  · rw [if_neg hk]

theorem mem_subscript {m : Finmap (fun _ : K => V)} {k k' : K} {dflt : V} :
    k' ∈ (subscript m k dflt).1 ↔ k' = k ∨ k' ∈ m := by
  rw [← Finmap.lookup_isSome, lookup_subscript, ← Finmap.lookup_isSome]
  by_cases h : k' = k <;> simp [h]

/-- **What only grows**: when every step adds what its input brings, a run adds what its inputs
bring. -/
theorem foldl_grows {S A : Type*} (step : S → A → S) (P : S → Prop) (Q : A → Prop)
    (h : ∀ s a, P (step s a) ↔ P s ∨ Q a) (s : S) (as : List A) :
    P (as.foldl step s) ↔ P s ∨ ∃ a ∈ as, Q a := by
  induction as generalizing s with
  | nil => simp
  | cons a as ih =>
    rw [List.foldl_cons, ih, h, or_assoc]
    simp

end Subscript

/-! ## Chains -/

section Chain

variable {K V : Type*} [DecidableEq K]

/-- Walk the list to the first node with the key. -/
def findNode (key : K) : List (K × V) → Option V
  | [] => none
  | node :: next => if node.1 = key then some node.2 else findNode key next

/-- Walk the list to the first node with the key and set its value, or append a
node at the end. -/
def insertNode (key : K) (value : V) : List (K × V) → List (K × V)
  | [] => [(key, value)]
  | node :: next =>
    if node.1 = key then (node.1, value) :: next else node :: insertNode key value next

/-- Walk the list to the first node with the key and unlink it. -/
def eraseNode (key : K) : List (K × V) → List (K × V)
  | [] => []
  | node :: next => if node.1 = key then next else node :: eraseNode key next

theorem keys_insertNode (key : K) (value : V) (l : List (K × V)) :
    (insertNode key value l).map Prod.fst =
      if key ∈ l.map Prod.fst then l.map Prod.fst else l.map Prod.fst ++ [key] := by
  induction l with
  | nil => simp [insertNode]
  | cons node next ih =>
    by_cases h : node.1 = key
    · simp [insertNode, h]
    · have h' : key ≠ node.1 := fun hk => h hk.symm
      rw [insertNode, if_neg h, List.map_cons, ih]
      by_cases hmem : key ∈ next.map Prod.fst
      · rw [if_pos hmem, if_pos (by simp only [List.map_cons, List.mem_cons]; exact Or.inr hmem)]
        rfl
      · rw [if_neg hmem, if_neg]
        · rfl
        · simp only [List.map_cons, List.mem_cons, not_or]
          exact ⟨h', hmem⟩

theorem eraseNode_sublist (key : K) (l : List (K × V)) : (eraseNode key l).Sublist l := by
  induction l with
  | nil => exact List.Sublist.refl _
  | cons node next ih =>
    rw [eraseNode]
    split
    · exact List.sublist_cons_self node next
    · exact ih.cons_cons node

theorem findNode_eq_none_iff {key : K} {l : List (K × V)} :
    findNode key l = none ↔ key ∉ l.map Prod.fst := by
  induction l with
  | nil => simp [findNode]
  | cons node next ih =>
    by_cases h : node.1 = key
    · simp [findNode, h]
    · have h' : key ≠ node.1 := fun hk => h hk.symm
      rw [findNode, if_neg h, ih, List.map_cons, List.mem_cons, not_or]
      exact ⟨fun hn => ⟨h', hn⟩, fun hn => hn.2⟩

theorem findNode_insertNode (key key' : K) (value : V) (l : List (K × V)) :
    findNode key' (insertNode key value l) =
      if key' = key then some value else findNode key' l := by
  induction l with
  | nil =>
    by_cases h : key' = key
    · simp [insertNode, findNode, h]
    · have h' : key ≠ key' := fun hk => h hk.symm
      simp [insertNode, findNode, h, h']
  | cons node next ih =>
    rw [insertNode]
    by_cases hn : node.1 = key
    · rw [if_pos hn]
      by_cases h : key' = key
      · rw [findNode, if_pos (hn.trans h.symm), if_pos h]
      · have hk' : node.1 ≠ key' := fun hk => h (hk.symm.trans hn)
        rw [findNode, if_neg hk', if_neg h, findNode, if_neg hk']
    · rw [if_neg hn, findNode, findNode, ih]
      by_cases hk' : node.1 = key'
      · have h : key' ≠ key := fun h => hn (hk'.trans h)
        rw [if_pos hk', if_neg h, if_pos hk']
      · rw [if_neg hk', if_neg hk']

theorem findNode_append {key : K} {before : List (K × V)} (h : ∀ node ∈ before, node.1 ≠ key)
    (after : List (K × V)) : findNode key (before ++ after) = findNode key after := by
  induction before with
  | nil => rfl
  | cons node before ih =>
    rw [List.forall_mem_cons] at h
    rw [List.cons_append, findNode, if_neg h.1, ih h.2]

theorem insertNode_append {key : K} {before : List (K × V)} (h : ∀ node ∈ before, node.1 ≠ key)
    (value : V) (after : List (K × V)) :
    insertNode key value (before ++ after) = before ++ insertNode key value after := by
  induction before with
  | nil => rfl
  | cons node before ih =>
    rw [List.forall_mem_cons] at h
    rw [List.cons_append, insertNode, if_neg h.1, ih h.2, List.cons_append]

theorem eraseNode_append {key : K} {before : List (K × V)} (h : ∀ node ∈ before, node.1 ≠ key)
    (after : List (K × V)) : eraseNode key (before ++ after) = before ++ eraseNode key after := by
  induction before with
  | nil => rfl
  | cons node before ih =>
    rw [List.forall_mem_cons] at h
    rw [List.cons_append, eraseNode, if_neg h.1, ih h.2, List.cons_append]

/-- Unlinking the first node with the key unlinks the key, when it occurs once. -/
theorem findNode_eraseNode {l : List (K × V)} (hl : (l.map Prod.fst).Nodup) (key key' : K) :
    findNode key' (eraseNode key l) = if key' = key then none else findNode key' l := by
  induction l with
  | nil => simp [eraseNode, findNode]
  | cons node next ih =>
    rw [List.map_cons, List.nodup_cons] at hl
    rw [eraseNode]
    by_cases hn : node.1 = key
    · rw [if_pos hn]
      by_cases h : key' = key
      · rw [if_pos h, findNode_eq_none_iff, h, ← hn]
        exact hl.1
      · have hk' : node.1 ≠ key' := fun hk => h (hk.symm.trans hn)
        rw [if_neg h, findNode, if_neg hk']
    · rw [if_neg hn, findNode, findNode, ih hl.2]
      by_cases hk' : node.1 = key'
      · have h : key' ≠ key := fun h => hn (hk'.trans h)
        rw [if_pos hk', if_neg h, if_pos hk']
      · rw [if_neg hk', if_neg hk']

/-- An association list in which no key occurs twice. -/
structure Chain (K V : Type*) where
  nodes : List (K × V)
  /-- Every key sits in one node. -/
  nodup : (nodes.map Prod.fst).Nodup

namespace Chain

/-- The chain without nodes. -/
def empty : Chain K V := ⟨[], by simp⟩

def find (c : Chain K V) (key : K) : Option V := findNode key c.nodes

def insert (c : Chain K V) (key : K) (value : V) : Chain K V where
  nodes := insertNode key value c.nodes
  nodup := by
    rw [keys_insertNode]
    split
    · exact c.nodup
    · rename_i hmem
      rw [List.nodup_append]
      refine ⟨c.nodup, by simp, ?_⟩
      intro a ha b hb
      rw [List.mem_singleton] at hb
      subst hb
      exact fun hab => hmem (hab ▸ ha)

def erase (c : Chain K V) (key : K) : Chain K V where
  nodes := eraseNode key c.nodes
  nodup := ((eraseNode_sublist key c.nodes).map Prod.fst).nodup c.nodup

@[simp] theorem find_empty (key : K) : (empty : Chain K V).find key = none := rfl

@[simp] theorem find_insert (c : Chain K V) (key key' : K) (value : V) :
    (c.insert key value).find key' = if key' = key then some value else c.find key' :=
  findNode_insertNode key key' value c.nodes

@[simp] theorem find_erase (c : Chain K V) (key key' : K) :
    (c.erase key).find key' = if key' = key then none else c.find key' :=
  findNode_eraseNode c.nodup key key'

end Chain

end Chain

end Table
