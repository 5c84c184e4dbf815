import WebServer.Library.Table

/-!
# The concurrent hash map

`ConcurrentHashMap` as its clients see it between two operations: an array of
buckets, each a chain of nodes with distinct keys.  Every operation works on the
one bucket its key hashes to, under that bucket's lock.

`find_insert`, `find_erase`, `find_clear` and `find_new` say that it is a finite map,
whatever the hash function.
-/

namespace WebServer

/-- `HashBucket`: a chain of nodes from `_head` on. -/
abbrev HashBucket (K V : Type*) := Table.Chain K V

/-- `ConcurrentHashMap`. -/
structure ConcurrentHashMap (K V : Type*) where
  hashFn : K → ℕ
  hashSize : ℕ
  /-- `_hashTable`, of which the indices below `hashSize` are in use. -/
  hashTable : ℕ → HashBucket K V
  hashSize_pos : 0 < hashSize

/-- `HASH_SIZE_DEFAULT`. -/
def hashSizeDefault : ℕ := 1031

namespace ConcurrentHashMap

variable {K V : Type*} [DecidableEq K]

omit [DecidableEq K] in
/-- The constructor, with the default size. -/
def new (hashFn : K → ℕ) : ConcurrentHashMap K V where
  hashFn
  hashSize := hashSizeDefault
  hashTable := fun _ => .empty
  hashSize_pos := by decide

omit [DecidableEq K] in
/-- The constructor, with a size. -/
def ofSize (hashFn : K → ℕ) (hashSize_ : ℕ) (h : 0 < hashSize_) : ConcurrentHashMap K V where
  hashFn
  hashSize := hashSize_
  hashTable := fun _ => .empty
  hashSize_pos := h

omit [DecidableEq K] in
/-- The bucket a key belongs to. -/
def hashValue (m : ConcurrentHashMap K V) (key : K) : ℕ := m.hashFn key % m.hashSize

/-- `Find`, as the value it stores when it returns true. -/
def find (m : ConcurrentHashMap K V) (key : K) : Option V :=
  (m.hashTable (m.hashValue key)).find key

/-- `Insert`. -/
def insert (m : ConcurrentHashMap K V) (key : K) (value : V) : ConcurrentHashMap K V :=
  { m with
    hashTable := Function.update m.hashTable (m.hashValue key)
      ((m.hashTable (m.hashValue key)).insert key value) }

/-- `Erase`. -/
def erase (m : ConcurrentHashMap K V) (key : K) : ConcurrentHashMap K V :=
  { m with
    hashTable := Function.update m.hashTable (m.hashValue key)
      ((m.hashTable (m.hashValue key)).erase key) }

omit [DecidableEq K] in
/-- `HashBucket::Clear` of one bucket. -/
def clearBucket (m : ConcurrentHashMap K V) (i : ℕ) : ConcurrentHashMap K V :=
  { m with hashTable := Function.update m.hashTable i .empty }

omit [DecidableEq K] in
/-- `Clear`: the buckets one after the other. -/
def clear (m : ConcurrentHashMap K V) : ConcurrentHashMap K V :=
  (List.range m.hashSize).foldl clearBucket m

@[simp] theorem find_new (hashFn : K → ℕ) (key : K) :
    (new hashFn : ConcurrentHashMap K V).find key = none := rfl

@[simp] theorem hashValue_insert (m : ConcurrentHashMap K V) (key key' : K) (value : V) :
    (m.insert key value).hashValue key' = m.hashValue key' := rfl

@[simp] theorem hashValue_erase (m : ConcurrentHashMap K V) (key key' : K) :
    (m.erase key).hashValue key' = m.hashValue key' := rfl

@[simp] theorem find_insert (m : ConcurrentHashMap K V) (key key' : K) (value : V) :
    (m.insert key value).find key' = if key' = key then some value else m.find key' := by
  rw [find, hashValue_insert, insert]
  by_cases hb : m.hashValue key' = m.hashValue key
  · simp only [hb, Function.update_self, Table.Chain.find_insert, find]
  · have hk : key' ≠ key := fun h => hb (h ▸ rfl)
    simp only [Function.update_of_ne hb, if_neg hk, find]

@[simp] theorem find_erase (m : ConcurrentHashMap K V) (key key' : K) :
    (m.erase key).find key' = if key' = key then none else m.find key' := by
  rw [find, hashValue_erase, erase]
  by_cases hb : m.hashValue key' = m.hashValue key
  · simp only [hb, Function.update_self, Table.Chain.find_erase, find]
  · have hk : key' ≠ key := fun h => hb (h ▸ rfl)
    simp only [Function.update_of_ne hb, if_neg hk, find]

omit [DecidableEq K] in
/-- The first buckets of a map, cleared in their order. -/
theorem foldl_clearBucket (m : ConcurrentHashMap K V) (n : ℕ) :
    (List.range n).foldl clearBucket m =
      { m with hashTable := fun i => if i < n then .empty else m.hashTable i } := by
  induction n with
  | zero => rfl
  | succ n ih =>
    rw [List.range_succ, List.foldl_append, ih, List.foldl_cons, List.foldl_nil, clearBucket]
    congr 1
    funext i
    by_cases hi : i = n
    · subst hi
      simp
    · simp only [Function.update_of_ne hi]
      by_cases hlt : i < n
      · rw [if_pos hlt, if_pos (by omega)]
      · rw [if_neg hlt, if_neg (by omega)]

omit [DecidableEq K] in
/-- Any buckets of a map, cleared in any order. -/
theorem foldl_clearBucket_list (m : ConcurrentHashMap K V) (is : List ℕ) :
    is.foldl clearBucket m =
      { m with hashTable := fun i => if i ∈ is then .empty else m.hashTable i } := by
  induction is generalizing m with
  | nil => simp
  | cons j is ih =>
    rw [List.foldl_cons, ih, clearBucket]
    congr 1
    funext i
    by_cases hij : i = j
    · subst hij
      simp
    · simp only [Function.update_of_ne hij, List.mem_cons, hij, false_or]

omit [DecidableEq K] in
theorem hashValue_lt (m : ConcurrentHashMap K V) (key : K) : m.hashValue key < m.hashSize :=
  Nat.mod_lt _ m.hashSize_pos

@[simp] theorem find_clear (m : ConcurrentHashMap K V) (key : K) : m.clear.find key = none := by
  rw [clear, foldl_clearBucket]
  show (if m.hashValue key < m.hashSize then Table.Chain.empty
    else m.hashTable (m.hashValue key)).find key = none
  rw [if_pos (m.hashValue_lt key), Table.Chain.find_empty]

end ConcurrentHashMap

end WebServer
