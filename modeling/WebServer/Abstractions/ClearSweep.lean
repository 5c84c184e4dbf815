import WebServer.Library.Sweep
import WebServer.Abstractions.ConcurrentHashMap

/-!
# Clearing a map that another client uses

`ConcurrentHashMap::Clear` holds the lock of one bucket at a time.  One client clears the
map, bucket by bucket, while another inserts, erases and finds; each of its calls is one
step under the lock of the bucket its key hashes to.

* `ClearAtomic` — some order of the calls and one `Clear` explains everything.
* `clear_bucketwise` — on one bucket there is always such an order, and the places of
  `Clear` in these orders ascend with the index of the bucket.
* `not_clearAtomic` — there need not be one for all buckets together.
-/

namespace WebServer

namespace ConcurrentHashMap

/-- A call of the other client. -/
inductive Call (K V : Type*)
  | insert (key : K) (value : V)
  | erase (key : K)
  | find (key : K)

/-- The key a call is about. -/
def Call.key {K V : Type*} : Call K V → K
  | .insert key _ => key
  | .erase key => key
  | .find key => key

variable {K V : Type*} [DecidableEq K]

/-- One call; `Find` replies with what it stores when it returns true. -/
def step (m : ConcurrentHashMap K V) : Call K V → ConcurrentHashMap K V × Option V
  | .insert key value => (m.insert key value, none)
  | .erase key => (m.erase key, none)
  | .find key => (m, m.find key)

/-! ## Both clients -/

/-- The map after the steps of both clients: `.inl i` clears the bucket `i`, `.inr c` is
the call `c`. -/
def swept (m : ConcurrentHashMap K V) (ms : List (ℕ ⊕ Call K V)) : ConcurrentHashMap K V :=
  Sweep.result clearBucket step m ms

/-- What the other client sees. -/
def seen (m : ConcurrentHashMap K V) (ms : List (ℕ ⊕ Call K V)) : List (Call K V × Option V) :=
  Sweep.observed clearBucket step m ms

/-- The map after the calls, with `Clear` all at once after the first `j`. -/
def clearedAfter (m : ConcurrentHashMap K V) (calls : List (Call K V)) (j : ℕ) :
    ConcurrentHashMap K V :=
  Service.run step (Service.run step m (calls.take j)).clear (calls.drop j)

/-- What the other client sees when `Clear` comes all at once after its first `j` calls. -/
def seenAround (m : ConcurrentHashMap K V) (calls : List (Call K V)) (j : ℕ) :
    List (Call K V × Option V) :=
  Service.history step m (calls.take j) ++
    Service.history step (Service.run step m (calls.take j)).clear (calls.drop j)

/-- The steps of both clients are explained by a `Clear` between two calls. -/
def ClearAtomic (m : ConcurrentHashMap K V) (calls : List (Call K V))
    (ms : List (ℕ ⊕ Call K V)) : Prop :=
  ∃ j ≤ calls.length, m.seen ms = m.seenAround calls j ∧
    ∀ key, (m.swept ms).find key = (m.clearedAfter calls j).find key

/-- On the bucket `i` the steps of both clients are explained by a `Clear` after the
first `j` calls. -/
structure ClearAtomicOn (m : ConcurrentHashMap K V) (calls : List (Call K V))
    (ms : List (ℕ ⊕ Call K V)) (i j : ℕ) : Prop where
  between : j ≤ calls.length
  replies : (m.seen ms).filter (m.hashValue ·.1.key == i) =
    (m.seenAround calls j).filter (m.hashValue ·.1.key == i)
  nodes : (m.swept ms).hashTable i = (m.clearedAfter calls j).hashTable i
  contents : ∀ key, m.hashValue key = i →
    (m.swept ms).find key = (m.clearedAfter calls j).find key

/-! ## One bucket at a time -/

/-- The hash function and the size of a table never change. -/
def SameTable (m m' : ConcurrentHashMap K V) : Prop :=
  m'.hashFn = m.hashFn ∧ m'.hashSize = m.hashSize

omit [DecidableEq K] in
theorem SameTable.hashValue {m m' : ConcurrentHashMap K V} (h : SameTable m m') (key : K) :
    m'.hashValue key = m.hashValue key := by
  rw [ConcurrentHashMap.hashValue, ConcurrentHashMap.hashValue, h.1, h.2]

/-- A bucket is a part of the map. -/
theorem parts (m : ConcurrentHashMap K V) :
    Sweep.Parts clearBucket step (SameTable m) hashTable (fun c => m.hashValue c.key) where
  good_visit _ _ h := h
  good_step s c h := by
    cases c with
    | insert key value => exact h
    | erase key => exact h
    | find key => exact h
  visit_own s t i _ := by
    simp only [clearBucket, Function.update_self]
  visit_other s i j hj := by
    simp only [clearBucket, Function.update_of_ne hj]
  step_own s t c hs ht hst := by
    cases c with
    | insert key value =>
      simp only [step, ConcurrentHashMap.insert, hs.hashValue, ht.hashValue, Call.key] at hst ⊢
      simp only [Function.update_self, hst, and_self]
    | erase key =>
      simp only [step, ConcurrentHashMap.erase, hs.hashValue, ht.hashValue, Call.key] at hst ⊢
      simp only [Function.update_self, hst, and_self]
    | find key =>
      simp only [step, ConcurrentHashMap.find, hs.hashValue, ht.hashValue, Call.key] at hst ⊢
      simp only [hst, and_self]
  step_other s c j hs hj := by
    cases c with
    | insert key value =>
      rw [← hs.hashValue] at hj
      exact Function.update_of_ne hj _ _
    | erase key =>
      rw [← hs.hashValue] at hj
      exact Function.update_of_ne hj _ _
    | find key => rfl

/-- Neither client's steps change the table. -/
theorem sameTable_swept (m : ConcurrentHashMap K V) (ms : List (ℕ ⊕ Call K V)) :
    SameTable m (m.swept ms) :=
  (parts m).good_result ⟨rfl, rfl⟩ ms

/-- `Clear` between two calls clears the buckets of the table. -/
theorem clear_run (m : ConcurrentHashMap K V) (calls : List (Call K V)) :
    (Service.run step m calls).clear =
      (List.range m.hashSize).foldl clearBucket (Service.run step m calls) := by
  have htable : SameTable m (Service.run step m calls) :=
    Sweep.result_calls clearBucket step m calls ▸ m.sameTable_swept (calls.map .inr)
  rw [clear, htable.2]

theorem clearedAfter_eq (m : ConcurrentHashMap K V) (calls : List (Call K V)) (j : ℕ) :
    m.clearedAfter calls j = m.swept (Sweep.serial (List.range m.hashSize) calls j) := by
  rw [clearedAfter, clear_run, swept, Sweep.result_serial]

theorem seenAround_eq (m : ConcurrentHashMap K V) (calls : List (Call K V)) (j : ℕ) :
    m.seenAround calls j = m.seen (Sweep.serial (List.range m.hashSize) calls j) := by
  rw [seenAround, clear_run, seen, Sweep.observed_serial]

/-- **Clearing, bucket by bucket**: the calls on the keys of one bucket, and what is left
in it, are those of a run in which `Clear` comes all at once where it came to that bucket.
It comes to the buckets in the order of their indices. -/
theorem clear_bucketwise (m : ConcurrentHashMap K V) (calls : List (Call K V))
    (ms : List (ℕ ⊕ Call K V)) (hms : Sweep.Interleaves (List.range m.hashSize) calls ms) :
    Monotone (Sweep.callsBefore ms) ∧
      ∀ i < m.hashSize, m.ClearAtomicOn calls ms i (Sweep.callsBefore ms i) := by
  refine ⟨Sweep.callsBefore_mono ms, fun i hi => ?_⟩
  have hi' : i < (List.range m.hashSize).length := by rwa [List.length_range]
  obtain ⟨hnodes, hreplies⟩ := (parts m).serial_part ⟨rfl, rfl⟩ hms List.nodup_range hi'
  rw [List.getElem_range] at hnodes hreplies
  have hbucket : (m.swept ms).hashTable i =
      (m.clearedAfter calls (Sweep.callsBefore ms i)).hashTable i := by
    rw [clearedAfter_eq]
    exact hnodes
  refine ⟨hms.calls ▸ Sweep.callsBefore_le ms i, ?_, hbucket, fun key hkey => ?_⟩
  · rw [seenAround_eq]
    exact hreplies
  · subst hkey
    rw [find, find, (m.sameTable_swept ms).hashValue, clearedAfter_eq,
      (m.sameTable_swept _).hashValue, ← clearedAfter_eq, hbucket]

/-! ## Two buckets -/

/-- A table of two buckets, the even keys and the odd keys. -/
def parity : ConcurrentHashMap ℕ ℕ := .ofSize id 2 (by decide)

/-- Two keys are inserted while `Clear` is between the two buckets. -/
def between : List (ℕ ⊕ Call ℕ ℕ) :=
  [.inl 0, .inr (.insert 0 5), .inr (.insert 1 6), .inl 1]

theorem clear_bucketwise_between :
    Monotone (Sweep.callsBefore between) ∧ ∀ i < parity.hashSize,
      parity.ClearAtomicOn [.insert 0 5, .insert 1 6] between i (Sweep.callsBefore between i) :=
  clear_bucketwise parity _ between ⟨by decide, rfl⟩

/-- `Clear` is not atomic: the first key stays and the second, inserted after it, is
gone. -/
theorem not_clearAtomic :
    Sweep.Interleaves (List.range parity.hashSize) [.insert 0 5, .insert 1 6] between ∧
      ¬ parity.ClearAtomic [.insert 0 5, .insert 1 6] between := by
  refine ⟨⟨by decide, rfl⟩, ?_⟩
  rintro ⟨j, hj, -, hfind⟩
  have hcases : j = 0 ∨ j = 1 ∨ j = 2 := by
    simp only [List.length_cons, List.length_nil] at hj
    omega
  rcases hcases with rfl | rfl | rfl
  · exact absurd (hfind 1) (by decide)
  · exact absurd (hfind 0) (by decide)
  · exact absurd (hfind 0) (by decide)

end ConcurrentHashMap

end WebServer
