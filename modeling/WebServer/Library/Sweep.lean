import Mathlib.Data.List.Nodup
import Mathlib.Order.Monotone.Defs
import Mathlib.Order.Nat
import WebServer.Library.Service

/-!
# Sweeping a shared state

Two clients of one state: the first visits its parts one after the other, the second
makes calls, each of which concerns one part.  A visit and a call are single steps, and
the two clients' steps may come in any order that keeps each client's own.

* `Interleaves` — the orders of the steps; `serial` is the one with all visits together.
* `result`, `observed` — the state an order leaves, and the calls with their replies.
* `callsBefore` — how many calls come before a visit; `callsBefore_mono`.
* `Parts` — visits and calls touch the part they concern and depend on it alone.
* `Parts.project` — what happens to one part is decided by the steps that concern it.
* `Parts.serial_part` — on one part, every order is the serial one whose visits all come
  where that part's visit came.
-/

namespace Sweep

variable {S ι C R X : Type*}

/-! ## Orders of the steps -/

/-- The steps, in the order in which they are taken, are the visits and the calls. -/
structure Interleaves (is : List ι) (cs : List C) (ms : List (ι ⊕ C)) : Prop where
  visits : ms.filterMap Sum.getLeft? = is
  calls : ms.filterMap Sum.getRight? = cs

/-- All visits together, after the first `j` calls. -/
def serial (is : List ι) (cs : List C) (j : ℕ) : List (ι ⊕ C) :=
  (cs.take j).map .inr ++ (is.map .inl ++ (cs.drop j).map .inr)

/-- The number of calls before the visit number `p`, or of all calls. -/
def callsBefore : List (ι ⊕ C) → ℕ → ℕ
  | [], _ => 0
  | .inl _ :: _, 0 => 0
  | .inl _ :: ms, p + 1 => callsBefore ms p
  | .inr _ :: ms, p => callsBefore ms p + 1

theorem callsBefore_le (ms : List (ι ⊕ C)) (p : ℕ) :
    callsBefore ms p ≤ (ms.filterMap Sum.getRight?).length := by
  induction ms generalizing p with
  | nil => exact Nat.le_refl 0
  | cons a ms ih =>
    cases a with
    | inl i =>
      cases p with
      | zero => exact Nat.zero_le _
      | succ p => exact ih p
    | inr c => exact Nat.succ_le_succ (ih p)

/-- Later visits come after no fewer calls. -/
theorem callsBefore_mono (ms : List (ι ⊕ C)) : Monotone (callsBefore ms) := by
  intro p q hpq
  induction ms generalizing p q with
  | nil => exact Nat.le_refl 0
  | cons a ms ih =>
    cases a with
    | inr c => exact Nat.succ_le_succ (ih hpq)
    | inl i =>
      cases p with
      | zero => exact Nat.zero_le _
      | succ p =>
        obtain ⟨q, rfl⟩ := Nat.exists_eq_add_one.2 (Nat.zero_lt_of_lt hpq)
        exact ih (Nat.le_of_succ_le_succ hpq)

/-- The steps before a visit and those after it. -/
theorem Interleaves.split {is : List ι} {cs : List C} {ms : List (ι ⊕ C)}
    (h : Interleaves is cs ms) {p : ℕ} (hp : p < is.length) :
    ∃ pre post, ms = pre ++ .inl is[p] :: post ∧
      Interleaves (is.take p) (cs.take (callsBefore ms p)) pre ∧
      Interleaves (is.drop (p + 1)) (cs.drop (callsBefore ms p)) post := by
  induction ms generalizing is cs p with
  | nil =>
    obtain ⟨rfl, -⟩ := h
    exact absurd hp (Nat.not_lt_zero p)
  | cons a ms ih =>
    obtain ⟨rfl, rfl⟩ := h
    cases a with
    | inr c =>
      obtain ⟨pre, post, hms, hpre, hpost⟩ := ih ⟨rfl, rfl⟩ hp
      refine ⟨.inr c :: pre, post, congrArg (.inr c :: ·) hms, ⟨hpre.visits, ?_⟩, hpost⟩
      exact congrArg (c :: ·) hpre.calls
    | inl i =>
      cases p with
      | zero => exact ⟨[], ms, rfl, ⟨rfl, rfl⟩, ⟨rfl, rfl⟩⟩
      | succ p =>
        obtain ⟨pre, post, hms, hpre, hpost⟩ := ih ⟨rfl, rfl⟩ (Nat.lt_of_succ_lt_succ hp)
        refine ⟨.inl i :: pre, post, congrArg (.inl i :: ·) hms, ⟨?_, hpre.calls⟩, hpost⟩
        exact congrArg (i :: ·) hpre.visits

theorem interleaves_serial (is : List ι) (cs : List C) (j : ℕ) :
    Interleaves is cs (serial is cs j) where
  visits := by
    simp only [serial, List.filterMap_append, List.filterMap_map, Function.comp_def,
      Sum.getLeft?_inl, Sum.getLeft?_inr, List.filterMap_some, List.filterMap_none,
      List.nil_append, List.append_nil]
  calls := by
    simp only [serial, List.filterMap_append, List.filterMap_map, Function.comp_def,
      Sum.getRight?_inl, Sum.getRight?_inr, List.filterMap_some, List.filterMap_none,
      List.nil_append, List.take_append_drop]

theorem callsBefore_calls (cs : List C) (ms : List (ι ⊕ C)) (p : ℕ) :
    callsBefore (cs.map .inr ++ ms) p = cs.length + callsBefore ms p := by
  induction cs with
  | nil => exact (Nat.zero_add _).symm
  | cons c cs ih =>
    show callsBefore (cs.map .inr ++ ms) p + 1 = cs.length + 1 + callsBefore ms p
    rw [ih, Nat.add_right_comm]

theorem callsBefore_visits (is : List ι) (ms : List (ι ⊕ C)) {p : ℕ} (hp : p < is.length) :
    callsBefore (is.map .inl ++ ms) p = 0 := by
  induction is generalizing p with
  | nil => exact absurd hp (Nat.not_lt_zero p)
  | cons i is ih =>
    cases p with
    | zero => rfl
    | succ p => exact ih (Nat.lt_of_succ_lt_succ hp)

theorem callsBefore_serial {is : List ι} {cs : List C} {j p : ℕ} (hj : j ≤ cs.length)
    (hp : p < is.length) : callsBefore (serial is cs j) p = j := by
  rw [serial, callsBefore_calls, callsBefore_visits is _ hp, List.length_take,
    Nat.min_eq_left hj, Nat.add_zero]

/-! ## What an order does -/

section Runs

variable (visit : S → ι → S) (step : S → C → S × R)

/-- The state that an order of the steps leaves. -/
def result : S → List (ι ⊕ C) → S
  | s, [] => s
  | s, .inl i :: ms => result (visit s i) ms
  | s, .inr c :: ms => result (step s c).1 ms

/-- The calls, with their replies. -/
def observed : S → List (ι ⊕ C) → List (C × R)
  | _, [] => []
  | s, .inl i :: ms => observed (visit s i) ms
  | s, .inr c :: ms => (c, (step s c).2) :: observed (step s c).1 ms

theorem result_append (s : S) (ms ms' : List (ι ⊕ C)) :
    result visit step s (ms ++ ms') = result visit step (result visit step s ms) ms' := by
  induction ms generalizing s with
  | nil => rfl
  | cons a ms ih =>
    cases a with
    | inl i => exact ih (visit s i)
    | inr c => exact ih (step s c).1

theorem observed_append (s : S) (ms ms' : List (ι ⊕ C)) :
    observed visit step s (ms ++ ms') =
      observed visit step s ms ++ observed visit step (result visit step s ms) ms' := by
  induction ms generalizing s with
  | nil => rfl
  | cons a ms ih =>
    cases a with
    | inl i => exact ih (visit s i)
    | inr c => exact congrArg (_ :: ·) (ih (step s c).1)

theorem result_visits (s : S) (is : List ι) :
    result visit step s (is.map .inl) = is.foldl visit s := by
  induction is generalizing s with
  | nil => rfl
  | cons i is ih => exact ih (visit s i)

theorem observed_visits (s : S) (is : List ι) :
    observed visit step s (is.map .inl) = [] := by
  induction is generalizing s with
  | nil => rfl
  | cons i is ih => exact ih (visit s i)

theorem result_calls (s : S) (cs : List C) :
    result visit step s (cs.map .inr) = Service.run step s cs := by
  induction cs generalizing s with
  | nil => rfl
  | cons c cs ih => exact ih (step s c).1

theorem observed_calls (s : S) (cs : List C) :
    observed visit step s (cs.map .inr) = Service.history step s cs := by
  induction cs generalizing s with
  | nil => rfl
  | cons c cs ih => exact congrArg (_ :: ·) (ih (step s c).1)

/-- The serial order runs the calls around one step of all visits. -/
theorem result_serial (s : S) (is : List ι) (cs : List C) (j : ℕ) :
    result visit step s (serial is cs j) =
      Service.run step (is.foldl visit (Service.run step s (cs.take j))) (cs.drop j) := by
  rw [serial, result_append, result_append, result_calls, result_visits, result_calls]

theorem observed_serial (s : S) (is : List ι) (cs : List C) (j : ℕ) :
    observed visit step s (serial is cs j) =
      Service.history step s (cs.take j) ++
        Service.history step (is.foldl visit (Service.run step s (cs.take j))) (cs.drop j) := by
  rw [serial, observed_append, observed_append, observed_calls, observed_visits,
    observed_calls, result_calls, result_visits, List.nil_append]

end Runs

/-! ## States in parts -/

/-- In the good states, a visit and a call touch the part they concern and no other, and
what they do there, and reply, depends on that part alone. -/
structure Parts (visit : S → ι → S) (step : S → C → S × R) (good : S → Prop)
    (part : S → ι → X) (of : C → ι) : Prop where
  good_visit : ∀ s i, good s → good (visit s i)
  good_step : ∀ s c, good s → good (step s c).1
  visit_own : ∀ s t i, part s i = part t i → part (visit s i) i = part (visit t i) i
  visit_other : ∀ s i j, j ≠ i → part (visit s i) j = part s j
  step_own : ∀ s t c, good s → good t → part s (of c) = part t (of c) →
    (step s c).2 = (step t c).2 ∧ part (step s c).1 (of c) = part (step t c).1 (of c)
  step_other : ∀ s c j, good s → j ≠ of c → part (step s c).1 j = part s j

variable [DecidableEq ι]

/-- The steps that concern the part. -/
def onPart (of : C → ι) (i : ι) : ι ⊕ C → Bool := Sum.elim (· == i) (of · == i)

@[simp] theorem onPart_inl (of : C → ι) (i j : ι) : onPart of i (.inl j) = (j == i) := rfl

@[simp] theorem onPart_inr (of : C → ι) (i : ι) (c : C) : onPart of i (.inr c) = (of c == i) := rfl

theorem filter_onPart_of_notMem (of : C → ι) {i : ι} {ms : List (ι ⊕ C)}
    (hi : i ∉ ms.filterMap Sum.getLeft?) :
    ms.filter (onPart of i) =
      ((ms.filterMap Sum.getRight?).filter (of · == i)).map .inr := by
  induction ms with
  | nil => rfl
  | cons a ms ih =>
    cases a with
    | inl j =>
      obtain ⟨hij, hi⟩ := not_or.1 (mt List.mem_cons.2 hi)
      rw [List.filter_cons_of_neg (by simpa using Ne.symm hij)]
      exact ih hi
    | inr c =>
      by_cases hc : of c = i
      · simpa [hc] using ih hi
      · simpa [hc] using ih hi

/-- The steps that concern a part, when its visit comes once. -/
theorem Interleaves.filter_onPart {is : List ι} {cs : List C} {ms : List (ι ⊕ C)}
    (h : Interleaves is cs ms) (hnodup : is.Nodup) {p : ℕ} (hp : p < is.length)
    (of : C → ι) :
    ms.filter (onPart of is[p]) =
      ((cs.take (callsBefore ms p)).filter (of · == is[p])).map .inr ++
        .inl is[p] :: ((cs.drop (callsBefore ms p)).filter (of · == is[p])).map .inr := by
  obtain ⟨pre, post, hms, hpre, hpost⟩ := h.split hp
  have hsplit : is.take p ++ is[p] :: is.drop (p + 1) = is := by simp
  rw [← hsplit, List.nodup_middle, List.nodup_cons, List.mem_append, not_or] at hnodup
  obtain ⟨⟨hbefore, hafter⟩, -⟩ := hnodup
  have hpre' := filter_onPart_of_notMem of (hpre.visits.symm ▸ hbefore)
  have hpost' := filter_onPart_of_notMem of (hpost.visits.symm ▸ hafter)
  rw [hpre.calls] at hpre'
  rw [hpost.calls] at hpost'
  conv_lhs => rw [hms]
  rw [List.filter_append, List.filter_cons_of_pos (by simp), hpre', hpost']

section Rules

variable {visit : S → ι → S} {step : S → C → S × R} {good : S → Prop} {part : S → ι → X}
  {of : C → ι}

omit [DecidableEq ι] in
theorem Parts.good_result (h : Parts visit step good part of) {s : S} (hs : good s)
    (ms : List (ι ⊕ C)) : good (result visit step s ms) := by
  induction ms generalizing s with
  | nil => exact hs
  | cons a ms ih =>
    cases a with
    | inl i => exact ih (h.good_visit s i hs)
    | inr c => exact ih (h.good_step s c hs)

/-- **What happens to one part** is decided by the steps that concern it. -/
theorem Parts.project (h : Parts visit step good part of) {i : ι} {s t : S} (hs : good s)
    (ht : good t) (hst : part s i = part t i) (ms : List (ι ⊕ C)) :
    part (result visit step s ms) i =
        part (result visit step t (ms.filter (onPart of i))) i ∧
      (observed visit step s ms).filter (of ·.1 == i) =
        observed visit step t (ms.filter (onPart of i)) := by
  induction ms generalizing s t with
  | nil => exact ⟨hst, rfl⟩
  | cons a ms ih =>
    cases a with
    | inl j =>
      by_cases hj : j = i
      · subst hj
        rw [List.filter_cons_of_pos (by simp)]
        exact ih (h.good_visit s j hs) (h.good_visit t j ht) (h.visit_own s t j hst)
      · rw [List.filter_cons_of_neg (by simpa using hj)]
        exact ih (h.good_visit s j hs) ht ((h.visit_other s j i (Ne.symm hj)).trans hst)
    | inr c =>
      by_cases hc : of c = i
      · subst hc
        obtain ⟨hreply, hpart⟩ := h.step_own s t c hs ht hst
        obtain ⟨hresult, hobserved⟩ := ih (h.good_step s c hs) (h.good_step t c ht) hpart
        rw [List.filter_cons_of_pos (by simp)]
        refine ⟨hresult, ?_⟩
        rw [observed, observed, List.filter_cons_of_pos (by simp), hobserved, hreply]
      · obtain ⟨hresult, hobserved⟩ := ih (h.good_step s c hs) ht
          ((h.step_other s c i hs (Ne.symm hc)).trans hst)
        rw [List.filter_cons_of_neg (by simpa using hc)]
        refine ⟨hresult, ?_⟩
        rw [observed, List.filter_cons_of_neg (by simpa using hc), hobserved]

/-- Two orders with the same steps on a part do the same there. -/
theorem Parts.congr (h : Parts visit step good part of) {i : ι} {s : S} (hs : good s)
    {ms ms' : List (ι ⊕ C)} (hms : ms.filter (onPart of i) = ms'.filter (onPart of i)) :
    part (result visit step s ms) i = part (result visit step s ms') i ∧
      (observed visit step s ms).filter (of ·.1 == i) =
        (observed visit step s ms').filter (of ·.1 == i) := by
  obtain ⟨hresult, hobserved⟩ := h.project hs hs rfl ms
  obtain ⟨hresult', hobserved'⟩ := h.project hs hs rfl ms'
  rw [hresult, hresult', hobserved, hobserved', hms]
  exact ⟨rfl, rfl⟩

/-- **One part at a time**: on the part visited as number `p`, an order does what the
serial order does whose visits all come where that visit comes. -/
theorem Parts.serial_part (h : Parts visit step good part of) {s : S} (hs : good s)
    {is : List ι} {cs : List C} {ms : List (ι ⊕ C)} (hms : Interleaves is cs ms)
    (hnodup : is.Nodup) {p : ℕ} (hp : p < is.length) :
    part (result visit step s ms) is[p] =
        part (result visit step s (serial is cs (callsBefore ms p))) is[p] ∧
      (observed visit step s ms).filter (of ·.1 == is[p]) =
        (observed visit step s (serial is cs (callsBefore ms p))).filter (of ·.1 == is[p]) := by
  apply h.congr hs
  have hle : callsBefore ms p ≤ cs.length := hms.calls ▸ callsBefore_le ms p
  rw [hms.filter_onPart hnodup hp,
    (interleaves_serial is cs (callsBefore ms p)).filter_onPart hnodup hp,
    callsBefore_serial hle hp]

end Rules

end Sweep
