import Mathlib.Data.List.Nodup
import Mathlib.Logic.Equiv.Basic
import Mathlib.Tactic.Common

/-!
# Ownership of resources

Resources are opened and closed, and in between each is held at one place.

* `Ledger` — what is held where, and what was opened and closed so far.
* `Ledger.Balanced` — what is open is what is held, each resource at one place.
* `balanced_acquire`, `balanced_release`, `balanced_pass` — what keeps a ledger balanced.
* `not_balanced_pass` — what does not: a resource is passed on to a place that holds another.
* `Settled` — the account of resources whose names come back after they are closed, at places
  that are taken and left: `Settled.take`, `Settled.leave`.
-/

namespace Ownership

variable {K R : Type*}

/-- What is held where, and all that was opened and closed. -/
structure Ledger (K R : Type*) where
  held : K → Option R
  opened : List R
  closed : List R

namespace Ledger

/-- The resources opened and not closed are those held, each at one place, and none is closed
twice, or without having been opened. -/
structure Balanced (l : Ledger K R) : Prop where
  outstanding : ∀ r, (r ∈ l.opened ∧ r ∉ l.closed) ↔ ∃ k, l.held k = some r
  single : ∀ k k' r, l.held k = some r → l.held k' = some r → k = k'
  once : l.closed.Nodup
  subset : l.closed ⊆ l.opened

variable [DecidableEq K] {l : Ledger K R}

/-- What an attempt to open has given is held at a place. -/
def acquire (l : Ledger K R) (k : K) (r : Option R) : Ledger K R :=
  { l with held := Function.update l.held k r, opened := l.opened ++ r.toList }

/-- What is held at a place is closed, if there is anything. -/
def release (l : Ledger K R) (k : K) : Ledger K R :=
  { l with held := Function.update l.held k none, closed := l.closed ++ (l.held k).toList }

/-- What is held at the place `a` goes over to the place `b`. -/
def pass (l : Ledger K R) (a b : K) : Ledger K R :=
  { l with held := Function.update (Function.update l.held b (l.held a)) a none }

/-! ## Places -/

theorem update_eq_some {f : K → Option R} {k k' : K} {o : Option R} {r : R} :
    Function.update f k o k' = some r ↔ k' = k ∧ o = some r ∨ k' ≠ k ∧ f k' = some r := by
  rw [Function.update_apply]
  split_ifs with h
  · simp [h]
  · simp [h]

theorem release_of_none {k : K} (hk : l.held k = none) : l.release k = l := by
  obtain ⟨held, opened, closed⟩ := l
  change held k = none at hk
  show (⟨Function.update held k none, opened, closed ++ (held k).toList⟩ : Ledger K R) = _
  rw [hk, Option.toList_none, List.append_nil, ← hk, Function.update_eq_self]

theorem acquire_none {k : K} (hk : l.held k = none) : l.acquire k none = l := by
  obtain ⟨held, opened, closed⟩ := l
  change held k = none at hk
  show (⟨Function.update held k none, opened ++ [], closed⟩ : Ledger K R) = _
  rw [List.append_nil, ← hk, Function.update_eq_self]

/-- Passing on to a place that holds nothing exchanges the two places. -/
theorem held_pass {a b : K} (hb : l.held b = none) :
    (l.pass a b).held = l.held ∘ Equiv.swap a b := by
  funext k
  show Function.update (Function.update l.held b (l.held a)) a none k = l.held (Equiv.swap a b k)
  by_cases hka : k = a
  · rw [hka, Function.update_self, Equiv.swap_apply_left, hb]
  · rw [Function.update_of_ne hka]
    by_cases hkb : k = b
    · rw [hkb, Function.update_self, Equiv.swap_apply_right]
    · rw [Function.update_of_ne hkb, Equiv.swap_apply_of_ne_of_ne hka hkb]

/-! ## What keeps a ledger balanced -/

omit [DecidableEq K] in
/-- Nothing is held, and nothing was opened. -/
theorem balanced_empty : (⟨fun _ => none, [], []⟩ : Ledger K R).Balanced where
  outstanding := fun _ =>
    iff_of_false (fun h => absurd h.1 List.not_mem_nil) fun ⟨_, hk⟩ => nomatch hk
  single := fun _ _ _ h => nomatch h
  once := List.nodup_nil
  subset := List.nil_subset _

/-- A resource that is new comes to a place that holds nothing. -/
theorem balanced_acquire (h : l.Balanced) {k : K} (hk : l.held k = none) {r : Option R}
    (hr : ∀ x ∈ r, x ∉ l.opened) : (l.acquire k r).Balanced := by
  cases r with
  | none => rwa [acquire_none hk]
  | some r =>
    have hnew : r ∉ l.opened := hr r rfl
    have hopen : ∀ k' x, l.held k' = some x → x ∈ l.opened ∧ x ∉ l.closed :=
      fun k' x hx => (h.outstanding x).2 ⟨k', hx⟩
    refine ⟨fun x => ?_, fun k₁ k₂ x h₁ h₂ => ?_, h.once, fun x hx => ?_⟩
    · show x ∈ l.opened ++ [r] ∧ x ∉ l.closed ↔ ∃ k', Function.update l.held k (some r) k' = some x
      simp only [update_eq_some, Option.some.injEq, List.mem_append, List.mem_singleton]
      constructor
      · rintro ⟨hx | rfl, hclosed⟩
        · obtain ⟨k', hk'⟩ := (h.outstanding x).1 ⟨hx, hclosed⟩
          refine ⟨k', Or.inr ⟨?_, hk'⟩⟩
          rintro rfl
          exact absurd (hk.symm.trans hk') (by simp)
        · exact ⟨k, Or.inl ⟨rfl, rfl⟩⟩
      · rintro ⟨k', ⟨rfl, rfl⟩ | ⟨-, hk'⟩⟩
        · exact ⟨Or.inr rfl, fun hclosed => hnew (h.subset hclosed)⟩
        · exact ⟨Or.inl (hopen k' x hk').1, (hopen k' x hk').2⟩
    · rcases update_eq_some.1 h₁ with ⟨rfl, hx₁⟩ | ⟨-, hx₁⟩
      · rcases update_eq_some.1 h₂ with ⟨rfl, -⟩ | ⟨-, hx₂⟩
        · rfl
        · exact absurd (hopen k₂ x hx₂).1 (Option.some.inj hx₁ ▸ hnew)
      · rcases update_eq_some.1 h₂ with ⟨rfl, hx₂⟩ | ⟨-, hx₂⟩
        · exact absurd (hopen k₁ x hx₁).1 (Option.some.inj hx₂ ▸ hnew)
        · exact h.single k₁ k₂ x hx₁ hx₂
    · exact List.mem_append_left _ (h.subset hx)

/-- What a place holds is closed. -/
theorem balanced_release (h : l.Balanced) (k : K) : (l.release k).Balanced := by
  cases hk : l.held k with
  | none => rwa [release_of_none hk]
  | some r =>
    obtain ⟨hopened, hclosed⟩ := (h.outstanding r).2 ⟨k, hk⟩
    have hrest : (l.release k).closed = l.closed ++ [r] := by
      show l.closed ++ (l.held k).toList = _
      rw [hk, Option.toList_some]
    have hheld : ∀ k' x, (l.release k).held k' = some x ↔ k' ≠ k ∧ l.held k' = some x := by
      intro k' x
      refine update_eq_some.trans ?_
      simp only [reduceCtorEq, and_false, false_or]
    refine ⟨fun x => ?_, fun k₁ k₂ x h₁ h₂ => ?_, ?_, ?_⟩
    · simp only [hheld, hrest, List.mem_append, List.mem_singleton, not_or]
      constructor
      · rintro ⟨hx, hnot, hne⟩
        obtain ⟨k', hk'⟩ := (h.outstanding x).1 ⟨hx, hnot⟩
        refine ⟨k', ?_, hk'⟩
        rintro rfl
        exact hne (Option.some.inj (hk'.symm.trans hk))
      · rintro ⟨k', hne, hk'⟩
        obtain ⟨hx, hnot⟩ := (h.outstanding x).2 ⟨k', hk'⟩
        refine ⟨hx, hnot, ?_⟩
        rintro rfl
        exact hne (h.single k' k x hk' hk)
    · exact h.single k₁ k₂ x ((hheld k₁ x).1 h₁).2 ((hheld k₂ x).1 h₂).2
    · rw [hrest]
      exact List.nodup_append_comm.1 (List.nodup_cons.2 ⟨hclosed, h.once⟩)
    · rw [hrest]
      exact List.append_subset.2 ⟨h.subset, List.cons_subset.2 ⟨hopened, List.nil_subset _⟩⟩

/-- What a place holds goes over to one that holds nothing. -/
theorem balanced_pass (h : l.Balanced) {a b : K} (hb : l.held b = none) :
    (l.pass a b).Balanced := by
  refine ⟨fun x => ?_, fun k₁ k₂ x h₁ h₂ => ?_, h.once, h.subset⟩
  · rw [held_pass hb]
    exact (h.outstanding x).trans (Equiv.swap a b).surjective.exists
  · rw [held_pass hb] at h₁ h₂
    exact (Equiv.swap a b).injective (h.single _ _ x h₁ h₂)

/-- What the other place holds is open, and held nowhere any more. -/
theorem not_balanced_pass (h : l.Balanced) {a b : K} (hne : a ≠ b) {r : R}
    (hb : l.held b = some r) : ¬ (l.pass a b).Balanced := by
  intro hpass
  obtain ⟨k, hk⟩ := (hpass.outstanding r).1 ((h.outstanding r).2 ⟨b, hb⟩)
  rcases update_eq_some.1 hk with ⟨-, hr⟩ | ⟨hka, hk⟩
  · cases hr
  · rcases update_eq_some.1 hk with ⟨-, hr⟩ | ⟨hkb, hr⟩
    · exact hne (h.single a b r hr hb)
    · exact hkb (h.single k b r hr hb)

end Ledger

/-! ## Places that are taken and left -/

/-- What is held at the places that are taken. -/
def holdings (held : K → Option R) (places : List K) : List R := places.filterMap held

variable {N : Type*} (name : R → N)

/-- The openings are the closings and what is held at the places that are taken, one for one,
and no two things that are held have one name.  A name may come back when it is free. -/
structure Settled (held : K → Option R) (places : List K) (opened closed : List R) : Prop where
  distinct : places.Nodup
  account : opened.Perm (closed ++ holdings held places)
  single : ((holdings held places).map name).Nodup

variable {name} {held held' : K → Option R} {places : List K} {opened closed : List R}

theorem holdings_congr (h : ∀ k ∈ places, held' k = held k) :
    holdings held' places = holdings held places := List.filterMap_congr h

theorem holdings_cons (held : K → Option R) (k : K) (places : List K) :
    holdings held (k :: places) = (held k).toList ++ holdings held places := by
  unfold holdings
  cases hk : held k with
  | none => rw [List.filterMap_cons_none hk, Option.toList_none, List.nil_append]
  | some r => rw [List.filterMap_cons_some hk, Option.toList_some, List.singleton_append]

theorem settled_nil (held : K → Option R) : Settled name held [] [] [] :=
  ⟨List.nodup_nil, .refl _, List.nodup_nil⟩

/-- A place is taken, with what was opened for it. -/
theorem Settled.take (h : Settled name held places opened closed) {k : K} (hk : k ∉ places)
    (hrest : ∀ k' ∈ places, held' k' = held k')
    (hnew : ∀ r ∈ held' k, name r ∉ (holdings held places).map name) :
    Settled name held' (k :: places) (opened ++ (held' k).toList) closed where
  distinct := List.nodup_cons.2 ⟨hk, h.distinct⟩
  account := by
    rw [holdings_cons, holdings_congr hrest]
    refine (h.account.append_right _).trans ?_
    rw [List.append_assoc]
    exact List.perm_append_comm.append_left closed
  single := by
    rw [holdings_cons, holdings_congr hrest]
    cases hr : held' k with
    | none => exact h.single
    | some r => exact List.nodup_cons.2 ⟨hnew r hr, h.single⟩

/-- A place is left, and what it held is closed. -/
theorem Settled.leave [DecidableEq K] (h : Settled name held places opened closed) {k : K}
    (hk : k ∈ places) (hrest : ∀ k' ∈ places, k' ≠ k → held' k' = held k') :
    Settled name held' (places.erase k) opened (closed ++ (held k).toList) := by
  have hsame : holdings held' (places.erase k) = holdings held (places.erase k) :=
    holdings_congr fun k' hk' =>
      hrest k' (List.mem_of_mem_erase hk') ((h.distinct.mem_erase_iff.1 hk').1)
  have hperm : (holdings held places).Perm ((held k).toList ++ holdings held (places.erase k)) := by
    rw [← holdings_cons]
    exact (List.perm_cons_erase hk).filterMap held
  refine ⟨h.distinct.erase k, ?_, ?_⟩
  · rw [hsame, List.append_assoc]
    exact h.account.trans (hperm.append_left closed)
  · rw [hsame]
    have hnodup := (hperm.map name).nodup_iff.1 h.single
    rw [List.map_append] at hnodup
    exact (List.nodup_append.1 hnodup).2.1

/-- What a place that is taken holds is outstanding. -/
theorem mem_holdings {k : K} (hk : k ∈ places) {r : R} (hr : held k = some r) :
    r ∈ holdings held places := List.mem_filterMap.2 ⟨k, hk, hr⟩

end Ownership
