import Mathlib

/-!
# Books of sessions

A party keeps sessions under keys, each with a resource of its own.  A resource is
taken when a session is opened and given back when it is closed; it may also be
lost, when it has been taken and no session comes of it.

* `Book` — the open sessions and the lost resources.
* `Step`, `Run` — how a book changes.
* `Run.valid` — in every run no resource is held twice.
-/

namespace Sessions

variable {K R : Type*}

/-- The open sessions, each with its resource, and the resources that are lost, the
last one first. -/
structure Book (K R : Type*) where
  live : K → Option R
  lost : List R

namespace Book

/-- The book of nobody. -/
def empty : Book K R := ⟨fun _ => none, []⟩

/-- The resource is taken. -/
def Holds (b : Book K R) (r : R) : Prop := (∃ k, b.live k = some r) ∨ r ∈ b.lost

theorem not_holds_empty (r : R) : ¬ (empty : Book K R).Holds r := by
  rintro (⟨k, hk⟩ | h)
  · cases hk
  · cases h

/-- No resource is held twice. -/
structure Valid (b : Book K R) : Prop where
  injective : ∀ k k' r, b.live k = some r → b.live k' = some r → k = k'
  disjoint : ∀ k r, b.live k = some r → r ∉ b.lost
  nodup : b.lost.Nodup

theorem valid_empty : (empty : Book K R).Valid where
  injective := by
    intro k k' r h
    cases h
  disjoint := by
    intro k r h
    cases h
  nodup := List.nodup_nil

variable [DecidableEq K]

/-- Open a session. -/
def enroll (b : Book K R) (k : K) (r : R) : Book K R :=
  { b with live := Function.update b.live k (some r) }

/-- Close a session. -/
def retire (b : Book K R) (k : K) : Book K R :=
  { b with live := Function.update b.live k none }

omit [DecidableEq K] in
/-- Lose a resource. -/
def lose (b : Book K R) (r : R) : Book K R := { b with lost := r :: b.lost }

@[simp] theorem live_enroll (b : Book K R) (k k' : K) (r : R) :
    (b.enroll k r).live k' = if k' = k then some r else b.live k' := Function.update_apply ..

@[simp] theorem live_retire (b : Book K R) (k k' : K) :
    (b.retire k).live k' = if k' = k then none else b.live k' := Function.update_apply ..

omit [DecidableEq K] in
@[simp] theorem live_lose (b : Book K R) (r : R) : (b.lose r).live = b.live := rfl

@[simp] theorem lost_enroll (b : Book K R) (k : K) (r : R) : (b.enroll k r).lost = b.lost := rfl

@[simp] theorem lost_retire (b : Book K R) (k : K) : (b.retire k).lost = b.lost := rfl

omit [DecidableEq K] in
@[simp] theorem lost_lose (b : Book K R) (r : R) : (b.lose r).lost = r :: b.lost := rfl

theorem holds_enroll {b : Book K R} {k : K} (hk : b.live k = none) (r r' : R) :
    (b.enroll k r).Holds r' ↔ r' = r ∨ b.Holds r' := by
  unfold Holds
  simp only [live_enroll, lost_enroll]
  constructor
  · rintro (⟨k', hk'⟩ | h)
    · split_ifs at hk' with hkk
      · exact Or.inl (Option.some.inj hk').symm
      · exact Or.inr (Or.inl ⟨k', hk'⟩)
    · exact Or.inr (Or.inr h)
  · rintro (rfl | ⟨k', hk'⟩ | h)
    · exact Or.inl ⟨k, if_pos rfl⟩
    · have hne : k' ≠ k := by
        rintro rfl
        rw [hk] at hk'
        cases hk'
      exact Or.inl ⟨k', by rw [if_neg hne, hk']⟩
    · exact Or.inr h

omit [DecidableEq K] in
theorem holds_lose (b : Book K R) (r r' : R) : (b.lose r).Holds r' ↔ r' = r ∨ b.Holds r' := by
  unfold Holds
  simp only [live_lose, lost_lose, List.mem_cons]
  tauto

/-- Closing a session gives its resource back, and no other. -/
theorem holds_retire {b : Book K R} (hv : b.Valid) {k : K} {r : R} (hk : b.live k = some r)
    (r' : R) : (b.retire k).Holds r' ↔ r' ≠ r ∧ b.Holds r' := by
  unfold Holds
  simp only [live_retire, lost_retire]
  constructor
  · rintro (⟨k', hk'⟩ | h)
    · split_ifs at hk' with hkk
      refine ⟨?_, Or.inl ⟨k', hk'⟩⟩
      rintro rfl
      exact hkk (hv.injective k' k r' hk' hk)
    · refine ⟨?_, Or.inr h⟩
      rintro rfl
      exact hv.disjoint k r' hk h
  · rintro ⟨hne, ⟨k', hk'⟩ | h⟩
    · have hkk : k' ≠ k := by
        rintro rfl
        rw [hk] at hk'
        exact hne (Option.some.inj hk').symm
      exact Or.inl ⟨k', by rw [if_neg hkk, hk']⟩
    · exact Or.inr h

end Book

variable [DecidableEq K]

/-- What can happen to a book. -/
inductive Step : Book K R → Book K R → Prop
  | idle (b : Book K R) : Step b b
  | enroll {b : Book K R} {k : K} {r : R} : b.live k = none → ¬ b.Holds r → Step b (b.enroll k r)
  | retire {b : Book K R} {k : K} {r : R} : b.live k = some r → Step b (b.retire k)
  | lose {b : Book K R} {r : R} : ¬ b.Holds r → Step b (b.lose r)

/-- What the empty book can become. -/
def Run (b : Book K R) : Prop := Relation.ReflTransGen Step Book.empty b

theorem Step.valid {b b' : Book K R} (h : Step b b') (hv : b.Valid) : b'.Valid := by
  cases h with
  | idle => exact hv
  | @enroll k r hk hr =>
    refine ⟨?_, ?_, hv.nodup⟩
    · intro k₁ k₂ r' h₁ h₂
      rw [Book.live_enroll] at h₁ h₂
      split_ifs at h₁ h₂ with hk₁ hk₂ hk₂
      · rw [hk₁, hk₂]
      · cases h₁
        exact absurd (Or.inl ⟨k₂, h₂⟩) hr
      · cases h₂
        exact absurd (Or.inl ⟨k₁, h₁⟩) hr
      · exact hv.injective k₁ k₂ r' h₁ h₂
    · intro k₁ r' h₁
      rw [Book.live_enroll] at h₁
      split_ifs at h₁ with hk₁
      · cases h₁
        exact fun hmem => hr (Or.inr hmem)
      · exact hv.disjoint k₁ r' h₁
  | @retire k r hk =>
    refine ⟨?_, ?_, hv.nodup⟩
    · intro k₁ k₂ r' h₁ h₂
      rw [Book.live_retire] at h₁ h₂
      split_ifs at h₁ h₂
      exact hv.injective k₁ k₂ r' h₁ h₂
    · intro k₁ r' h₁
      rw [Book.live_retire] at h₁
      split_ifs at h₁
      exact hv.disjoint k₁ r' h₁
  | @lose r hr =>
    refine ⟨hv.injective, ?_, List.nodup_cons.2 ⟨fun hmem => hr (Or.inr hmem), hv.nodup⟩⟩
    intro k₁ r' h₁ hmem
    rcases List.mem_cons.1 hmem with rfl | hmem
    · exact hr (Or.inl ⟨k₁, h₁⟩)
    · exact hv.disjoint k₁ r' h₁ hmem

/-- **In every run no resource is held twice.** -/
theorem Run.valid {b : Book K R} (h : Run b) : b.Valid := by
  induction h with
  | refl => exact Book.valid_empty
  | tail _ hst ih => exact hst.valid ih

theorem Run.step {b b' : Book K R} (h : Run b) (hst : Step b b') : Run b' :=
  Relation.ReflTransGen.tail h hst

end Sessions
