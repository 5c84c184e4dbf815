import Mathlib

/-!
# Loops that ask the outside

A loop that asks for something in every round, until its state says that it is done.  The
answers come as a list, of which the loop takes as many as it needs, or as a stream.

* `rounds` — the state after the answers.
* `Exits` — whatever follows, the loop has ended after finitely many answers.
* `Decides` — the loop goes on or ends as its last answer says.  Then it is a fold over the
  answers down to the first that ends it (`Decides.rounds_eq`), and it exits on the streams
  that have such an answer (`Decides.exits_iff`).
* `Counts` — the loop goes on until its answers have brought it to a target.  Then it ends when
  they bring enough (`Counts.done_rounds_iff`, `Counts.exits_iff`).
-/

namespace Rounds

variable {S A : Type*}

/-- The state of the loop after some answers, of which it takes what it needs. -/
def rounds (done : S → Bool) (body : S → A → S) : S → List A → S
  | s, [] => s
  | s, a :: as => if done s then s else rounds done body (body s a) as

/-- The loop ends after finitely many answers of the stream. -/
def Exits (done : S → Bool) (body : S → A → S) (s : S) (answers : Stream' A) : Prop :=
  ∃ n, done (rounds done body s (answers.take n)) = true

/-- The answers down to the first that ends the loop. -/
def consumed (ends : A → Bool) : List A → List A
  | [] => []
  | a :: as => a :: if ends a then [] else consumed ends as

/-- As long as the loop goes on, its last answer decides whether it does. -/
def Decides (done : S → Bool) (body : S → A → S) (ends : A → Bool) : Prop :=
  ∀ s a, done s = false → done (body s a) = ends a

variable {done : S → Bool} {body : S → A → S} {ends : A → Bool}

theorem rounds_of_done {s : S} (h : done s = true) (as : List A) :
    rounds done body s as = s := by
  cases as with
  | nil => rfl
  | cons a as => rw [rounds, if_pos h]

theorem rounds_cons {s : S} (h : done s = false) (a : A) (as : List A) :
    rounds done body s (a :: as) = rounds done body (body s a) as := by
  rw [rounds, if_neg (by simp [h])]

/-- **The loop is a fold over the answers it takes.** -/
theorem Decides.rounds_eq (h : Decides done body ends) {s : S} (hs : done s = false)
    (as : List A) : rounds done body s as = (consumed ends as).foldl body s := by
  induction as generalizing s with
  | nil => rfl
  | cons a as ih =>
    have hbody := h s a hs
    rw [rounds_cons hs, consumed, List.foldl_cons]
    cases hends : ends a with
    | true =>
      rw [if_pos rfl]
      exact rounds_of_done (hbody.trans hends) as
    | false =>
      rw [if_neg Bool.false_ne_true]
      exact ih (hbody.trans hends)

/-- What is seen of its state is a fold as well, if what is seen of a round is. -/
theorem Decides.view_rounds {V : Type*} {view : S → V} {step : V → A → V}
    (h : Decides done body ends) (hview : ∀ s a, view (body s a) = step (view s) a) {s : S}
    (hs : done s = false) (as : List A) :
    view (rounds done body s as) = (consumed ends as).foldl step (view s) := by
  rw [h.rounds_eq hs]
  exact (List.foldl_hom view fun s a => (hview s a).symm).symm

/-- It is done when there was an answer that ends it. -/
theorem Decides.done_rounds (h : Decides done body ends) {s : S} (hs : done s = false)
    (as : List A) : done (rounds done body s as) = as.any ends := by
  induction as generalizing s with
  | nil => exact hs
  | cons a as ih =>
    have hbody := h s a hs
    rw [rounds_cons hs, List.any_cons]
    cases hends : ends a with
    | true =>
      rw [rounds_of_done (hbody.trans hends), hbody, hends, Bool.true_or]
    | false =>
      rw [ih (hbody.trans hends), Bool.false_or]

theorem mem_take {answers : Stream' A} {n : ℕ} {a : A} :
    a ∈ answers.take n ↔ ∃ i < n, answers.get i = a := by
  induction n with
  | zero => simp
  | succ n ih =>
    rw [Stream'.take_succ', List.mem_append, ih, List.mem_singleton]
    constructor
    · rintro (⟨i, hi, ha⟩ | ha)
      · exact ⟨i, Nat.lt_succ_of_lt hi, ha⟩
      · exact ⟨n, Nat.lt_succ_self n, ha.symm⟩
    · rintro ⟨i, hi, ha⟩
      obtain hlt | rfl := Nat.lt_succ_iff_lt_or_eq.1 hi
      · exact Or.inl ⟨i, hlt, ha⟩
      · exact Or.inr ha.symm

/-- **The loop exits on the streams that have such an answer.** -/
theorem Decides.exits_iff (h : Decides done body ends) {s : S} (hs : done s = false)
    (answers : Stream' A) : Exits done body s answers ↔ ∃ i, ends (answers.get i) = true := by
  simp only [Exits, h.done_rounds hs, List.any_eq_true, mem_take]
  constructor
  · rintro ⟨n, a, ⟨i, -, rfl⟩, hends⟩
    exact ⟨i, hends⟩
  · rintro ⟨i, hends⟩
    exact ⟨i + 1, answers.get i, ⟨i, Nat.lt_succ_self i, rfl⟩, hends⟩

/-- The answers the loop takes are all there are when none of them ends it. -/
theorem consumed_append {as bs : List A} (h : ∀ a ∈ as, ends a = false) :
    consumed ends (as ++ bs) = as ++ consumed ends bs := by
  induction as with
  | nil => rfl
  | cons a as ih =>
    rw [List.cons_append, consumed, if_neg (by simp [h a List.mem_cons_self]),
      ih fun a' ha => h a' (List.mem_cons_of_mem _ ha), List.cons_append]

theorem mem_of_mem_consumed {a : A} {as : List A} (h : a ∈ consumed ends as) : a ∈ as := by
  induction as with
  | nil => exact h
  | cons b as ih =>
    rw [consumed, List.mem_cons] at h
    obtain rfl | h := h
    · exact List.mem_cons_self
    · split_ifs at h
      · cases h
      · exact List.mem_cons_of_mem _ (ih h)

/-! ## Loops that count -/

/-- A loop that ends when its progress reaches a target.  An answer brings it on by its gain, or
it hangs the loop, and then nothing does. -/
structure Counts (done : S → Bool) (body : S → A → S) (target : ℕ) (progress : S → ℕ)
    (gain : A → ℕ) (hung : S → Bool) (hangs : A → Bool) : Prop where
  done_iff : ∀ s, done s = true ↔ target ≤ progress s
  go : ∀ s a, hung s = false → hangs a = false →
    hung (body s a) = false ∧ progress (body s a) = progress s + gain a
  hang : ∀ s a, hung s = false → hangs a = true →
    hung (body s a) = true ∧ progress (body s a) = progress s
  stay : ∀ s a, hung s = true → body s a = s

/-- What some answers bring, down to the first that hangs the loop. -/
def gained (gain : A → ℕ) (hangs : A → Bool) (as : List A) : ℕ :=
  ((as.takeWhile fun a => !hangs a).map gain).sum

variable {target : ℕ} {progress : S → ℕ} {gain : A → ℕ} {hung : S → Bool} {hangs : A → Bool}

@[simp] theorem gained_nil : gained gain hangs [] = 0 := rfl

theorem gained_cons_of_hangs {a : A} (h : hangs a = true) (as : List A) :
    gained gain hangs (a :: as) = 0 := by
  rw [gained, List.takeWhile_cons_of_neg (by simp [h])]
  rfl

theorem gained_cons {a : A} (h : hangs a = false) (as : List A) :
    gained gain hangs (a :: as) = gain a + gained gain hangs as := by
  rw [gained, List.takeWhile_cons_of_pos (by simp [h]), List.map_cons, List.sum_cons]
  rfl

theorem Counts.rounds_of_hung (h : Counts done body target progress gain hung hangs) {s : S}
    (hs : hung s = true) (as : List A) : rounds done body s as = s := by
  induction as with
  | nil => rfl
  | cons a as ih =>
    cases hdone : done s with
    | true => exact rounds_of_done hdone _
    | false => rw [rounds_cons hdone, h.stay s a hs, ih]

/-- **A loop that counts ends when its answers bring what it needs.** -/
theorem Counts.done_rounds_iff (h : Counts done body target progress gain hung hangs) {s : S}
    (hs : hung s = false) (as : List A) :
    done (rounds done body s as) = true ↔ target ≤ progress s + gained gain hangs as := by
  induction as generalizing s with
  | nil => exact h.done_iff s
  | cons a as ih =>
    cases hdone : done s with
    | true =>
      rw [rounds_of_done hdone]
      exact iff_of_true hdone (Nat.le_add_right_of_le ((h.done_iff s).1 hdone))
    | false =>
      rw [rounds_cons hdone]
      cases ha : hangs a with
      | true =>
        obtain ⟨hhung, hprogress⟩ := h.hang s a hs ha
        rw [h.rounds_of_hung hhung, h.done_iff, hprogress, gained_cons_of_hangs ha]
        rfl
      | false =>
        obtain ⟨hhung, hprogress⟩ := h.go s a hs ha
        rw [ih hhung, hprogress, gained_cons ha, Nat.add_assoc]

/-- Answers that bring nothing, for ever, bring nothing. -/
theorem gained_take_le {tail : A} (htail : gain tail = 0) (pre : List A) (n : ℕ) :
    gained gain hangs ((pre ++ₛ Stream'.const tail).take n) ≤ gained gain hangs pre := by
  induction n generalizing pre with
  | zero => exact Nat.zero_le _
  | succ n ih =>
    cases pre with
    | nil =>
      have hrest := ih []
      rw [Stream'.nil_append_stream, Stream'.const_eq, Stream'.take_succ_cons]
      cases hhangs : hangs tail with
      | true => rw [gained_cons_of_hangs hhangs, gained_nil]
      | false =>
        rw [gained_cons hhangs, htail, Nat.zero_add]
        exact hrest
    | cons a pre =>
      rw [Stream'.cons_append_stream, Stream'.take_succ_cons]
      cases ha : hangs a with
      | true => rw [gained_cons_of_hangs ha, gained_cons_of_hangs ha]
      | false =>
        rw [gained_cons ha, gained_cons ha]
        exact Nat.add_le_add_left (ih pre) _

/-- **It exits on a stream that brings nothing from some point on** when the answers before it
bring enough. -/
theorem Counts.exits_iff (h : Counts done body target progress gain hung hangs) {s : S}
    (hs : hung s = false) {tail : A} (htail : gain tail = 0) (pre : List A) :
    Exits done body s (pre ++ₛ Stream'.const tail) ↔
      target ≤ progress s + gained gain hangs pre := by
  simp only [Exits, h.done_rounds_iff hs]
  constructor
  · rintro ⟨n, hn⟩
    exact hn.trans (Nat.add_le_add_left (gained_take_le htail pre n) _)
  · intro henough
    refine ⟨pre.length, ?_⟩
    rwa [Stream'.take_append_of_le_length _ _ _ le_rfl, List.take_length]

end Rounds
