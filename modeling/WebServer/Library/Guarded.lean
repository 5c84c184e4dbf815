import Mathlib.Data.DFinsupp.WellFounded
import Mathlib.Data.ENat.Basic
import WebServer.Library.LinkedList
import WebServer.Library.Service

/-!
# Sections under locks

Threads that run critical sections on one memory.  A section is under a lock, which it
holds alone or shares with others; the lock guards some data of its own and the cells
that its sections work on.  A section is a program that runs in small steps, and the
steps of different threads come in any order.

* `Step`, `Advance` — the steps; `Advance` are those that do not begin a new call.
* `Laws` — what has to be known of one section, in the cells of its lock and on its own.
* `Reachable.explained` — sections that keep the laws never fail, and what they did and
  replied is what they do at once, in the order in which they were left.
* `Explained.acc`, `Explained.exists_advance` — with no new calls every section is left
  in the end, in whatever order the threads run.
-/

namespace Guarded

open LinkedList

/-- What a step of a section comes to.  `D` is the data of its lock, `H` the memory. -/
inductive Turn (P D H R : Type*)
  | trap (t : Trap)
  /-- The section goes on at another point. -/
  | move (point : P) (data : D) (heap : H)
  /-- The section is left. -/
  | leave (reply : R) (data : D) (heap : H)

/-- The sections of a program.  A step is given the address that the memory hands out
if the section asks for a cell. -/
structure Program (L C P D A α R : Type*) where
  lock : C → L
  /-- Whether other sections may share the lock with this one. -/
  shared : C → Bool
  start : C → P
  next : C → P → A → D → Heap A α → Turn P D (Heap A α) R

/-- Where a thread is. -/
inductive Thread (C P : Type*)
  | idle
  /-- On its way to the lock of a call. -/
  | waiting (call : C)
  | inside (call : C) (point : P)
  | failed (t : Trap)
  deriving DecidableEq

structure State (ι L C P D A α R : Type*) where
  data : L → D
  heap : Heap A α
  threads : ι → Thread C P
  /-- Ghost: the sections that were left, in order, with their replies. -/
  log : List (C × R)

/-- The state in which no thread has made a call. -/
def State.start (ι C P R : Type*) {L D A α : Type*} (data : L → D) (heap : Heap A α) :
    State ι L C P D A α R :=
  ⟨data, heap, fun _ => .idle, []⟩

variable {ι L C P D A α R X : Type*}

/-- A lock can be taken for a call: nobody holds it, or it is shared by all. -/
def Free (prog : Program L C P D A α R) (threads : ι → Thread C P) (c : C) : Prop :=
  ∀ i c' p, threads i = .inside c' p → prog.lock c' = prog.lock c →
    prog.shared c' = true ∧ prog.shared c = true

section Steps

variable [DecidableEq ι] [DecidableEq L] (prog : Program L C P D A α R)

/-- One step of one thread that is in a call. -/
inductive Advance : State ι L C P D A α R → State ι L C P D A α R → Prop
  | enter {s : State ι L C P D A α R} {i : ι} {c : C} (hi : s.threads i = .waiting c)
      (hfree : Free prog s.threads c) :
      Advance s { s with threads := Function.update s.threads i (.inside c (prog.start c)) }
  | move {s : State ι L C P D A α R} {i : ι} {c : C} {p p' : P} {a : A} {d : D}
      {heap : Heap A α} (hi : s.threads i = .inside c p) (ha : a ∉ s.heap)
      (hnext : prog.next c p a (s.data (prog.lock c)) s.heap = .move p' d heap) :
      Advance s { s with
        data := Function.update s.data (prog.lock c) d
        heap
        threads := Function.update s.threads i (.inside c p') }
  | leave {s : State ι L C P D A α R} {i : ι} {c : C} {p : P} {a : A} {r : R} {d : D}
      {heap : Heap A α} (hi : s.threads i = .inside c p) (ha : a ∉ s.heap)
      (hnext : prog.next c p a (s.data (prog.lock c)) s.heap = .leave r d heap) :
      Advance s { s with
        data := Function.update s.data (prog.lock c) d
        heap
        threads := Function.update s.threads i .idle
        log := s.log ++ [(c, r)] }
  | trap {s : State ι L C P D A α R} {i : ι} {c : C} {p : P} {a : A} {t : Trap}
      (hi : s.threads i = .inside c p) (ha : a ∉ s.heap)
      (hnext : prog.next c p a (s.data (prog.lock c)) s.heap = .trap t) :
      Advance s { s with threads := Function.update s.threads i (.failed t) }

/-- One step of one thread. -/
inductive Step : State ι L C P D A α R → State ι L C P D A α R → Prop
  | call {s : State ι L C P D A α R} {i : ι} (c : C) (hi : s.threads i = .idle) :
      Step s { s with threads := Function.update s.threads i (.waiting c) }
  | advance {s s' : State ι L C P D A α R} (h : Advance prog s s') : Step s s'

/-- What the state can become. -/
def Reachable (s₀ s : State ι L C P D A α R) : Prop := Relation.ReflTransGen (Step prog) s₀ s

end Steps

/-! ## Memory that is shared out -/

/-- Every cell is in the part of one lock. -/
structure Partition (heap : Heap A α) (region : L → List A) : Prop where
  disjoint : ∀ l l', l ≠ l' → ∀ a ∈ region l, a ∉ region l'
  allocated : ∀ l, ∀ a ∈ region l, a ∈ heap
  owned : ∀ a ∈ heap, ∃ l, a ∈ region l

/-- What happens in the part of one lock is not seen in the others. -/
theorem Partition.lookup_other [DecidableEq A] {heap heap' : Heap A α} {region : L → List A}
    (h : Partition heap region) {l l' : L} (hl : l' ≠ l) {cells : List A}
    (he : Edit heap heap' (region l) cells) :
    ∀ a ∈ region l', heap'.lookup a = heap.lookup a :=
  fun a ha => he.frame a (h.allocated l' a ha) (h.disjoint l' l hl a ha)

theorem Partition.edit [DecidableEq A] [DecidableEq L] {heap heap' : Heap A α}
    {region : L → List A} (h : Partition heap region) {l : L} {cells : List A}
    (he : Edit heap heap' (region l) cells) (hcells : ∀ a ∈ cells, a ∈ heap') :
    Partition heap' (Function.update region l cells) where
  disjoint := by
    have hother : ∀ k, k ≠ l → ∀ a ∈ region k, a ∉ cells := by
      intro k hk a ha ha'
      rcases he.fresh a ha' with hal | hnew
      · exact h.disjoint k l hk a ha hal
      · exact hnew (h.allocated k a ha)
    intro k k' hkk a ha ha'
    by_cases hk : k = l
    · subst hk
      rw [Function.update_self] at ha
      rw [Function.update_of_ne (Ne.symm hkk)] at ha'
      exact hother k' (Ne.symm hkk) a ha' ha
    · rw [Function.update_of_ne hk] at ha
      by_cases hk' : k' = l
      · subst hk'
        rw [Function.update_self] at ha'
        exact hother k hkk a ha ha'
      · rw [Function.update_of_ne hk'] at ha'
        exact h.disjoint k k' hkk a ha ha'
  allocated := by
    intro k a ha
    by_cases hk : k = l
    · subst hk
      rw [Function.update_self] at ha
      exact hcells a ha
    · rw [Function.update_of_ne hk] at ha
      rw [← Finmap.lookup_isSome, h.lookup_other hk he a ha, Finmap.lookup_isSome]
      exact h.allocated k a ha
  owned := by
    intro a ha
    rcases he.owned a ha with hmem | ⟨hmem, hnot⟩
    · exact ⟨l, by rwa [Function.update_self]⟩
    · obtain ⟨k, hk⟩ := h.owned a hmem
      have hkl : k ≠ l := by
        rintro rfl
        exact hnot hk
      exact ⟨k, by rwa [Function.update_of_ne hkl]⟩

/-! ## One section on its own -/

/-- Every section at once: it does `spec` to the value of its lock. -/
def atomic [DecidableEq L] (prog : Program L C P D A α R) (spec : C → X → X × R) (x : L → X)
    (c : C) : (L → X) × R :=
  (Function.update x (prog.lock c) (spec c (x (prog.lock c))).1, (spec c (x (prog.lock c))).2)

section Sections

variable [DecidableEq A]

/-- What a section that shares its lock may do in a step. -/
def Reads (mid : P → ℕ → Prop) (n : ℕ) (reply : R) (d : D) (heap : Heap A α) :
    Turn P D (Heap A α) R → Prop
  | .trap _ => False
  | .move p' d' heap' => d' = d ∧ heap' = heap ∧ ∃ n' < n, mid p' n'
  | .leave reply' d' heap' => d' = d ∧ heap' = heap ∧ reply' = reply

/-- What a section that has its lock alone may do in a step, in the cells `r`. -/
def Writes (mid : P → ℕ → List A → D → Heap A α → Prop) (rest : List A → D → Heap A α → Prop)
    (n : ℕ) (reply : R) (r : List A) (heap : Heap A α) : Turn P D (Heap A α) R → Prop
  | .trap _ => False
  | .move p' d' heap' => ∃ r', Edit heap heap' r r' ∧ ∃ n' < n, mid p' n' r' d' heap'
  | .leave reply' d' heap' =>
    ∃ r', Edit heap heap' r r' ∧ rest r' d' heap' ∧ reply' = reply

/-- What has to be known of the sections.  A lock stands for a value `x` and owns the
cells `r`: `rest` is what holds of them while nobody changes them, and `mid` what holds
inside a section, at a point from which it takes at most `n` steps to the end. -/
structure Laws (prog : Program L C P D A α R) (spec : C → X → X × R)
    (rest : X → List A → D → Heap A α → Prop)
    (mid : C → P → ℕ → X → List A → D → Heap A α → Prop) : Prop where
  rest_frame : ∀ {x r d heap heap'}, rest x r d heap →
    (∀ a ∈ r, heap'.lookup a = heap.lookup a) → rest x r d heap'
  mid_frame : ∀ {c p n x r d heap heap'}, mid c p n x r d heap →
    (∀ a ∈ r, heap'.lookup a = heap.lookup a) → mid c p n x r d heap'
  rest_mem : ∀ {x r d heap}, rest x r d heap → ∀ a ∈ r, a ∈ heap
  mid_mem : ∀ {c p n x r d heap}, mid c p n x r d heap → ∀ a ∈ r, a ∈ heap
  enter : ∀ (c : C) {x r d heap}, rest x r d heap → ∃ n, mid c (prog.start c) n x r d heap
  read : ∀ {c p n x r d heap a}, prog.shared c = true → mid c p n x r d heap → a ∉ heap →
    (spec c x).1 = x ∧
      Reads (fun p' n' => mid c p' n' x r d heap) n (spec c x).2 d heap
        (prog.next c p a d heap)
  write : ∀ {c p n x r d heap a}, prog.shared c = false → mid c p n x r d heap → a ∉ heap →
    Writes (fun p' n' => mid c p' n' x) (rest (spec c x).1) n (spec c x).2 r heap
      (prog.next c p a d heap)

/-! ## All of them together -/

/-- The locks stand for `x` and own the cells `region`, and a thread inside a section has
at most `steps` to go. -/
structure Explained (prog : Program L C P D A α R) (rest : X → List A → D → Heap A α → Prop)
    (mid : C → P → ℕ → X → List A → D → Heap A α → Prop) (x : L → X) (region : L → List A)
    (steps : ι → ℕ) (s : State ι L C P D A α R) : Prop where
  partition : Partition s.heap region
  exclusive : ∀ i j c c' p p', s.threads i = .inside c p → s.threads j = .inside c' p' →
    prog.lock c = prog.lock c' → prog.shared c = false → i = j
  unfailed : ∀ i t, s.threads i ≠ .failed t
  rest : ∀ l, (∀ i c p, s.threads i = .inside c p → prog.lock c = l → prog.shared c = true) →
    rest (x l) (region l) (s.data l) s.heap
  mid : ∀ i c p, s.threads i = .inside c p →
    mid c p (steps i) (x (prog.lock c)) (region (prog.lock c)) (s.data (prog.lock c)) s.heap

/-- How far a thread is from the end of its call. -/
def rank (threads : ι → Thread C P) (steps : ι → ℕ) (i : ι) : ℕ∞ :=
  match threads i with
  | .idle => 0
  | .waiting _ => ⊤
  | .inside _ _ => steps i + 1
  | .failed _ => 0

end Sections

/-! ### One thread changes -/

section Updates

variable [DecidableEq ι]

/-- Who is inside a section after a change of one thread. -/
theorem inside_update {threads : ι → Thread C P} {i j : ι} {t : Thread C P} {c : C} {p : P}
    (h : Function.update threads i t j = .inside c p) :
    j = i ∧ t = .inside c p ∨ j ≠ i ∧ threads j = .inside c p := by
  by_cases hj : j = i
  · subst hj
    rw [Function.update_self] at h
    exact Or.inl ⟨rfl, h⟩
  · rw [Function.update_of_ne hj] at h
    exact Or.inr ⟨hj, h⟩

/-- Who is inside a section stays there when another thread changes. -/
theorem still_inside {threads : ι → Thread C P} {i j : ι}
    (hi : ∀ c p, threads i ≠ .inside c p) (t : Thread C P) {c : C} {p : P}
    (hj : threads j = .inside c p) : Function.update threads i t j = .inside c p := by
  have hji : j ≠ i := by
    rintro rfl
    exact hi c p hj
  rw [Function.update_of_ne hji, hj]

theorem unfailed_update {threads : ι → Thread C P} (h : ∀ j t, threads j ≠ .failed t) {i : ι}
    {t : Thread C P} (ht : ∀ t', t ≠ .failed t') (j : ι) (t' : Trap) :
    Function.update threads i t j ≠ .failed t' := by
  by_cases hj : j = i
  · subst hj
    rw [Function.update_self]
    exact ht t'
  · rw [Function.update_of_ne hj]
    exact h j t'

/-- A thread that leaves its section does not come into the way of another. -/
theorem exclusive_update {prog : Program L C P D A α R} {threads : ι → Thread C P}
    (h : ∀ i j c c' p p', threads i = .inside c p → threads j = .inside c' p' →
      prog.lock c = prog.lock c' → prog.shared c = false → i = j) {i : ι} {t : Thread C P}
    (ht : ∀ c p, t = .inside c p → ∃ p', threads i = .inside c p') :
    ∀ j k c c' p p', Function.update threads i t j = .inside c p →
      Function.update threads i t k = .inside c' p' →
      prog.lock c = prog.lock c' → prog.shared c = false → j = k := by
  have hold : ∀ j c p, Function.update threads i t j = .inside c p →
      ∃ p', threads j = .inside c p' := by
    intro j c p hj
    rcases inside_update hj with ⟨rfl, hin⟩ | ⟨-, hin⟩
    · exact ht c p hin
    · exact ⟨p, hin⟩
  intro j k c c' p p' hj hk
  obtain ⟨q, hq⟩ := hold j c p hj
  obtain ⟨q', hq'⟩ := hold k c' p' hk
  exact h j k c c' q q' hq hq'

theorem rank_update (threads : ι → Thread C P) (steps : ι → ℕ) (i : ι) (t : Thread C P) (n : ℕ) :
    rank (Function.update threads i t) (Function.update steps i n) =
      Function.update (rank threads steps) i (rank (fun _ : ι => t) (fun _ => n) i) := by
  funext j
  by_cases hj : j = i
  · subst hj
    simp only [rank, Function.update_self]
  · simp only [rank, Function.update_of_ne hj]

/-- A thread that comes closer to the end of its call brings all of them closer. -/
theorem rank_lt {threads : ι → Thread C P} {steps : ι → ℕ} {i : ι} {t : Thread C P} {n : ℕ}
    (h : rank (fun _ : ι => t) (fun _ => n) i < rank threads steps i) :
    rank (Function.update threads i t) (Function.update steps i n) < rank threads steps := by
  rw [rank_update]
  exact update_lt_self_iff.2 h

end Updates

/-! ### What a step keeps -/

section Steps

variable [DecidableEq ι] [DecidableEq A] {prog : Program L C P D A α R} {spec : C → X → X × R}
  {rest : X → List A → D → Heap A α → Prop} {mid : C → P → ℕ → X → List A → D → Heap A α → Prop}
  {x : L → X} {region : L → List A} {steps : ι → ℕ} {s : State ι L C P D A α R}

omit [DecidableEq A] in
/-- Outside of the sections nothing happens. -/
theorem Explained.call (h : Explained prog rest mid x region steps s) {i : ι}
    (hi : s.threads i = .idle) (c : C) :
    Explained prog rest mid x region steps
      { s with threads := Function.update s.threads i (.waiting c) } where
  partition := h.partition
  exclusive := exclusive_update h.exclusive nofun
  unfailed := unfailed_update h.unfailed nofun
  rest := by
    intro l hl
    refine h.rest l fun j c' p hj => hl j c' p (still_inside (fun c p hin => ?_) _ hj)
    rw [hi] at hin
    cases hin
  mid := by
    intro j c' p hj
    rcases inside_update hj with ⟨-, hin⟩ | ⟨-, hin⟩
    · cases hin
    · exact h.mid j c' p hin

omit [DecidableEq ι] [DecidableEq A] in
/-- A lock that can be taken is at rest. -/
theorem Explained.rest_of_free (h : Explained prog rest mid x region steps s) {c : C}
    (hfree : Free prog s.threads c) :
    rest (x (prog.lock c)) (region (prog.lock c)) (s.data (prog.lock c)) s.heap :=
  h.rest _ fun j c' p hj hl => (hfree j c' p hj hl).1

omit [DecidableEq A] in
/-- A section begins. -/
theorem Explained.enter (h : Explained prog rest mid x region steps s) {i : ι} {c : C}
    (hi : s.threads i = .waiting c) (hfree : Free prog s.threads c) {n : ℕ}
    (hn : mid c (prog.start c) n (x (prog.lock c)) (region (prog.lock c)) (s.data (prog.lock c))
      s.heap) :
    Explained prog rest mid x region (Function.update steps i n)
      { s with threads := Function.update s.threads i (.inside c (prog.start c)) } where
  partition := h.partition
  exclusive := by
    intro j k c' c'' p p' hj hk hl hexcl
    rcases inside_update hj with ⟨rfl, hin⟩ | ⟨-, hin⟩
    · cases hin
      rcases inside_update hk with ⟨rfl, -⟩ | ⟨-, hin'⟩
      · rfl
      · -- the lock would have to be shared by both
        rw [(hfree k c'' p' hin' hl.symm).2] at hexcl
        cases hexcl
    · rcases inside_update hk with ⟨rfl, hin'⟩ | ⟨-, hin'⟩
      · cases hin'
        rw [(hfree j c' p hin hl).1] at hexcl
        cases hexcl
      · exact h.exclusive j k c' c'' p p' hin hin' hl hexcl
  unfailed := unfailed_update h.unfailed nofun
  rest := by
    intro l hl
    refine h.rest l fun j c' p hj => hl j c' p (still_inside (fun c p hin => ?_) _ hj)
    rw [hi] at hin
    cases hin
  mid := by
    intro j c' p hj
    rcases inside_update hj with ⟨rfl, hin⟩ | ⟨hji, hin⟩
    · cases hin
      rwa [Function.update_self]
    · rw [Function.update_of_ne hji]
      exact h.mid j c' p hin

omit [DecidableEq A] in
/-- A section that shares its lock takes a step: it has changed nothing. -/
theorem Explained.read (h : Explained prog rest mid x region steps s) {i : ι} {c : C} {p : P}
    (hi : s.threads i = .inside c p) (hc : prog.shared c = true) {t : Thread C P} {n : ℕ}
    (hin : ∀ c' p', t = .inside c' p' → c' = c ∧ mid c p' n (x (prog.lock c))
      (region (prog.lock c)) (s.data (prog.lock c)) s.heap)
    (hfail : ∀ t', t ≠ .failed t') (log : List (C × R)) :
    Explained prog rest mid x region (Function.update steps i n)
      { s with threads := Function.update s.threads i t, log } where
  partition := h.partition
  exclusive := exclusive_update h.exclusive fun c' p' ht => ⟨p, (hin c' p' ht).1 ▸ hi⟩
  unfailed := unfailed_update h.unfailed hfail
  rest := by
    intro l hl
    refine h.rest l fun j c' p' hj hlock => ?_
    by_cases hji : j = i
    · subst hji
      rw [hi] at hj
      cases hj
      exact hc
    · exact hl j c' p' ((Function.update_of_ne hji _ _).trans hj) hlock
  mid := by
    intro j c' p' hj
    rcases inside_update hj with ⟨rfl, ht⟩ | ⟨hji, hj⟩
    · obtain ⟨rfl, hmid⟩ := hin c' p' ht
      rwa [Function.update_self]
    · rw [Function.update_of_ne hji]
      exact h.mid j c' p' hj

/-- A section that has its lock alone takes a step: nobody else is concerned. -/
theorem Explained.write [DecidableEq L] (laws : Laws prog spec rest mid)
    (h : Explained prog rest mid x region steps s) {i : ι} {c : C} {p : P}
    (hi : s.threads i = .inside c p) (hc : prog.shared c = false) {t : Thread C P} {n : ℕ}
    {r' : List A} {d' : D} {heap' : Heap A α} {y : X}
    (he : Edit s.heap heap' (region (prog.lock c)) r')
    (hin : ∀ c' p', t = .inside c' p' → c' = c ∧ mid c p' n y r' d' heap')
    (hout : (∀ p', t ≠ .inside c p') → rest y r' d' heap') (hfail : ∀ t', t ≠ .failed t')
    (log : List (C × R)) :
    Explained prog rest mid (Function.update x (prog.lock c) y)
      (Function.update region (prog.lock c) r') (Function.update steps i n)
      { data := Function.update s.data (prog.lock c) d'
        heap := heap'
        threads := Function.update s.threads i t
        log } where
  partition := by
    refine h.partition.edit he fun a ha => ?_
    by_cases ht : ∃ p', t = .inside c p'
    · obtain ⟨p', ht⟩ := ht
      exact laws.mid_mem (hin c p' ht).2 a ha
    · exact laws.rest_mem (hout fun p' hp' => ht ⟨p', hp'⟩) a ha
  exclusive := exclusive_update h.exclusive fun c' p' ht => ⟨p, (hin c' p' ht).1 ▸ hi⟩
  unfailed := unfailed_update h.unfailed hfail
  rest := by
    intro l hl
    by_cases hlc : l = prog.lock c
    · subst hlc
      simp only [Function.update_self]
      refine hout fun p' ht => ?_
      -- the section would still be there
      have hthere : Function.update s.threads i t i = .inside c p' := by
        rw [Function.update_self, ht]
      have hshared := hl i c p' hthere rfl
      rw [hc] at hshared
      cases hshared
    · simp only [Function.update_of_ne hlc]
      refine laws.rest_frame (h.rest l fun j c' p' hj hlock => ?_) (h.partition.lookup_other hlc he)
      have hji : j ≠ i := by
        rintro rfl
        rw [hi] at hj
        cases hj
        exact hlc hlock.symm
      exact hl j c' p' ((Function.update_of_ne hji _ _).trans hj) hlock
  mid := by
    intro j c' p' hj
    rcases inside_update hj with ⟨rfl, ht⟩ | ⟨hji, hj⟩
    · obtain ⟨rfl, hmid⟩ := hin c' p' ht
      simpa only [Function.update_self] using hmid
    · have hlock : prog.lock c' ≠ prog.lock c := fun hl =>
        hji (h.exclusive i j c c' p p' hi hj hl.symm hc).symm
      simp only [Function.update_of_ne hji, Function.update_of_ne hlock]
      exact laws.mid_frame (h.mid j c' p' hj) (h.partition.lookup_other hlock he)

/-! ### Runs -/

variable [DecidableEq L] {s₀ s' : State ι L C P D A α R} {x₀ : L → X}

/-- **One step** keeps the state explained, and brings the calls closer to their end. -/
theorem Advance.explained (laws : Laws prog spec rest mid)
    (h : Explained prog rest mid x region steps s) (hs : Advance prog s s') :
    ∃ cs region' steps', s'.log = s.log ++ Service.history (atomic prog spec) x cs ∧
      Explained prog rest mid (Service.run (atomic prog spec) x cs) region' steps' s' ∧
      rank s'.threads steps' < rank s.threads steps := by
  cases hs with
  | @enter i c hi hfree =>
    obtain ⟨n, hn⟩ := laws.enter c (h.rest_of_free hfree)
    refine ⟨[], region, _, (List.append_nil _).symm, h.enter hi hfree hn, rank_lt ?_⟩
    simp only [rank, hi]
    exact ENat.natCast_lt_top (n + 1)
  | @move i c p p' a d heap hi ha hnext =>
    have hmid := h.mid i c p hi
    have hless : ∀ n < steps i, rank (fun _ : ι => Thread.inside c p') (fun _ => n) i <
        rank s.threads steps i := by
      intro n hn
      simp only [rank, hi]
      exact_mod_cast Nat.add_lt_add_right hn 1
    cases hc : prog.shared c with
    | true =>
      have hread := (laws.read hc hmid ha).2
      rw [hnext] at hread
      obtain ⟨rfl, rfl, n, hn, hmid'⟩ := hread
      refine ⟨[], region, _, (List.append_nil _).symm, ?_, rank_lt (hless n hn)⟩
      rw [Function.update_eq_self]
      refine h.read hi hc (t := .inside c p') (fun c' q hq => ?_) nofun s.log
      cases hq
      exact ⟨rfl, hmid'⟩
    | false =>
      have hwrite := laws.write hc hmid ha
      rw [hnext] at hwrite
      obtain ⟨r', he, n, hn, hmid'⟩ := hwrite
      have hin : ∀ c' q, Thread.inside c p' = .inside c' q →
          c' = c ∧ mid c q n (x (prog.lock c)) r' d heap := by
        intro c' q hq
        cases hq
        exact ⟨rfl, hmid'⟩
      have hexpl := h.write laws hi hc he hin (fun hout => absurd rfl (hout p')) nofun s.log
      rw [Function.update_eq_self] at hexpl
      exact ⟨[], _, _, (List.append_nil _).symm, hexpl, rank_lt (hless n hn)⟩
  | @leave i c p a r d heap hi ha hnext =>
    have hmid := h.mid i c p hi
    have hless : rank (fun _ : ι => (.idle : Thread C P)) (fun _ => 0) i <
        rank s.threads steps i := by
      simp only [rank, hi]
      exact_mod_cast Nat.succ_pos (steps i)
    cases hc : prog.shared c with
    | true =>
      obtain ⟨hsame, hread⟩ := laws.read hc hmid ha
      rw [hnext] at hread
      obtain ⟨rfl, rfl, rfl⟩ := hread
      refine ⟨[c], region, _, rfl, ?_, rank_lt hless⟩
      rw [Service.run_cons, Service.run_nil, atomic, hsame, Function.update_eq_self,
        Function.update_eq_self]
      exact h.read hi hc (t := .idle) nofun nofun _
    | false =>
      have hwrite := laws.write hc hmid ha
      rw [hnext] at hwrite
      obtain ⟨r', he, hrest, rfl⟩ := hwrite
      have hexpl := h.write laws hi hc (t := .idle) (n := 0) he nofun (fun _ => hrest) nofun
        (s.log ++ [(c, (spec c (x (prog.lock c))).2)])
      exact ⟨[c], _, _, rfl, hexpl, rank_lt hless⟩
  | @trap i c p a t hi ha hnext =>
    have hmid := h.mid i c p hi
    cases hc : prog.shared c with
    | true =>
      have hread := (laws.read hc hmid ha).2
      rw [hnext] at hread
      exact hread.elim
    | false =>
      have hwrite := laws.write hc hmid ha
      rw [hnext] at hwrite
      exact hwrite.elim

/-- **Sections behave as if they ran at once**, in the order in which they are left. -/
theorem Reachable.explained (laws : Laws prog spec rest mid)
    (h₀ : Explained prog rest mid x₀ region steps s₀) (hlog : s₀.log = [])
    (h : Reachable prog s₀ s) :
    ∃ cs region' steps', s.log = Service.history (atomic prog spec) x₀ cs ∧
      Explained prog rest mid (Service.run (atomic prog spec) x₀ cs) region' steps' s := by
  induction h with
  | refl => exact ⟨[], region, steps, hlog, h₀⟩
  | tail _ hs ih =>
    obtain ⟨cs, region', steps', hlog', h'⟩ := ih
    cases hs with
    | call c hi => exact ⟨cs, region', steps', hlog', h'.call hi c⟩
    | advance hs =>
      obtain ⟨cs', region'', steps'', hlog'', h'', -⟩ := hs.explained laws h'
      refine ⟨cs ++ cs', region'', steps'', ?_, ?_⟩
      · rw [hlog'', hlog', Service.history_append]
      · rwa [Service.run_append]

/-- **Every section is left**: without new calls no run goes on for ever. -/
theorem Explained.acc [Finite ι] (laws : Laws prog spec rest mid)
    (h : Explained prog rest mid x region steps s) :
    Acc (fun s' s => Advance prog s s') s := by
  -- the induction is on how far the threads are from the ends of their calls
  generalize hrank : rank s.threads steps = k
  induction k using WellFoundedLT.induction generalizing x region steps s with
  | ind k ih =>
    refine ⟨s, fun s' hs => ?_⟩
    obtain ⟨cs, region', steps', -, h', hlt⟩ := hs.explained laws h
    exact ih _ (hrank ▸ hlt) h' rfl

omit [DecidableEq A] in
/-- **No deadlock**: some thread goes on, unless all are idle. -/
theorem Explained.exists_advance [Infinite A] (h : Explained prog rest mid x region steps s) :
    (∃ s', Advance prog s s') ∨ ∀ i, s.threads i = .idle := by
  by_cases hinside : ∃ i c p, s.threads i = .inside c p
  · -- a section can always take its next step
    obtain ⟨i, c, p, hi⟩ := hinside
    obtain ⟨a, ha⟩ := Infinite.exists_notMem_finset s.heap.keys
    have ha : a ∉ s.heap := fun hmem => ha (Finmap.mem_keys.2 hmem)
    left
    cases hnext : prog.next c p a (s.data (prog.lock c)) s.heap with
    | trap t => exact ⟨_, .trap hi ha hnext⟩
    | move p' d heap => exact ⟨_, .move hi ha hnext⟩
    | leave r d heap => exact ⟨_, .leave hi ha hnext⟩
  · by_cases hwaiting : ∃ i c, s.threads i = .waiting c
    · -- nobody holds a lock
      obtain ⟨i, c, hi⟩ := hwaiting
      exact Or.inl ⟨_, .enter hi fun j c' p hj => absurd ⟨j, c', p, hj⟩ hinside⟩
    · right
      intro i
      cases hi : s.threads i with
      | idle => rfl
      | waiting c => exact absurd ⟨i, c, hi⟩ hwaiting
      | inside c p => exact absurd ⟨i, c, p, hi⟩ hinside
      | failed t => exact absurd hi (h.unfailed i t)

end Steps

end Guarded
