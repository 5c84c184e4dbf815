import Mathlib.Data.Finset.Basic
import Mathlib.Data.List.Perm.Basic
import Mathlib.Tactic.Common

/-!
# Allocated blocks

A memory is the set of the blocks that were allocated and not given back.  To give back
a block that is not in it is an error: the block was given back before, or never allocated.

* `free`, `freeAll` — giving back one block, and several in order.
* `Owned` — the memory is what others own and the blocks of a list, each of them once.
* `Owned.allocate`, `Owned.free`, `Owned.freeAll` — who owns what after each step.
-/

namespace Allocation

variable {A : Type*} [DecidableEq A] {memory others : Finset A} {a : A} {as bs : List A}

/-- A block is given back; `none` if it is not allocated. -/
def free (memory : Finset A) (a : A) : Option (Finset A) :=
  if a ∈ memory then some (memory.erase a) else none

/-- Some blocks are given back, in order. -/
def freeAll (memory : Finset A) (as : List A) : Option (Finset A) := as.foldlM free memory

/-- What is allocated belongs to others or is in the list, where every block is once. -/
structure Owned (memory others : Finset A) (as : List A) : Prop where
  nodup : as.Nodup
  apart : ∀ a ∈ as, a ∉ others
  mem_iff : ∀ a, a ∈ memory ↔ a ∈ others ∨ a ∈ as

omit [DecidableEq A] in
theorem owned_nil (memory : Finset A) : Owned memory memory [] where
  nodup := List.nodup_nil
  apart := fun _ ha => absurd ha List.not_mem_nil
  mem_iff := fun a => by simp

omit [DecidableEq A] in
/-- The order of the blocks does not matter. -/
theorem Owned.perm (h : Owned memory others as) (hperm : as.Perm bs) : Owned memory others bs where
  nodup := hperm.nodup_iff.1 h.nodup
  apart := fun a ha => h.apart a (hperm.mem_iff.2 ha)
  mem_iff := fun a => (h.mem_iff a).trans (or_congr Iff.rfl hperm.mem_iff)

omit [DecidableEq A] in
/-- Who owns nothing has left the memory to the others. -/
theorem Owned.eq_others (h : Owned memory others []) : memory = others := by
  ext a
  rw [h.mem_iff]
  simp

/-- A block that was not allocated belongs to the list. -/
theorem Owned.allocate (h : Owned memory others as) (ha : a ∉ memory) :
    Owned (insert a memory) others (a :: as) := by
  rw [h.mem_iff, not_or] at ha
  refine ⟨List.nodup_cons.2 ⟨ha.2, h.nodup⟩, List.forall_mem_cons.2 ⟨ha.1, h.apart⟩, fun b => ?_⟩
  rw [Finset.mem_insert, h.mem_iff, List.mem_cons]
  tauto

/-- A block of the list can be given back. -/
theorem Owned.free (h : Owned memory others (a :: as)) :
    Allocation.free memory a = some (memory.erase a) ∧ Owned (memory.erase a) others as := by
  have hmem : a ∈ memory := (h.mem_iff a).2 (Or.inr (List.mem_cons_self ..))
  have hnd := List.nodup_cons.1 h.nodup
  have hapart := List.forall_mem_cons.1 h.apart
  refine ⟨if_pos hmem, hnd.2, hapart.2, fun b => ?_⟩
  rw [Finset.mem_erase, h.mem_iff, List.mem_cons]
  constructor
  · rintro ⟨hne, hb | rfl | hb⟩
    · exact Or.inl hb
    · exact absurd rfl hne
    · exact Or.inr hb
  · rintro (hb | hb)
    · exact ⟨fun heq => hapart.1 (heq ▸ hb), Or.inl hb⟩
    · exact ⟨fun heq => hnd.1 (heq ▸ hb), Or.inr (Or.inr hb)⟩

/-- **The first blocks of the list can be given back** one after the other; the others stay. -/
theorem Owned.freeAll (h : Owned memory others (as ++ bs)) :
    ∃ memory', Allocation.freeAll memory as = some memory' ∧ Owned memory' others bs := by
  induction as generalizing memory with
  | nil => exact ⟨memory, rfl, h⟩
  | cons a as ih =>
    obtain ⟨hfree, hrest⟩ := h.free
    obtain ⟨memory', hall, howned⟩ := ih hrest
    refine ⟨memory', ?_, howned⟩
    rw [Allocation.freeAll, List.foldlM_cons, hfree]
    exact hall

end Allocation
