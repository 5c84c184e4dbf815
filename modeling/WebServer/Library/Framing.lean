import Mathlib.Algebra.Ring.Nat
import Mathlib.Data.List.Infix
import Mathlib.Order.Basic
import Mathlib.Tactic.Common

/-!
# Messages in a stream

The general theory of a receiver that cuts a stream of letters into messages while the
stream arrives in chunks.  A *reader* reads one message off the front of what has arrived,
or waits for more; it never changes its mind about what it has read.

* `drain` — reads messages as long as there are any (`drain_append`).
* `feed`, `receive` — a receiver that is fed chunk by chunk.  How the stream is chunked
  makes no difference (`receive_eq`).
* `drain_of_isPrefix` — of a stream of frames, what has arrived gives the messages whose
  last letter has arrived, in order, and nothing else.
* `drain_eq_iff` — a stream whose parts may have been cut gives all the messages exactly
  if no part was cut.
-/

namespace Framing

variable {α μ : Type*}

/-- Reads the first message of a stream, with the number of its letters. -/
structure Reader (α μ : Type*) where
  read : List α → Option (μ × ℕ)
  pos : ∀ {s m n}, read s = some (m, n) → 0 < n
  le_length : ∀ {s m n}, read s = some (m, n) → n ≤ s.length
  stable : ∀ {s m n}, read s = some (m, n) → ∀ t, read (s ++ t) = some (m, n)

namespace Reader

variable (r : Reader α μ)

/-- Reads what there is: the messages, and the letters that are left. -/
def drain (s : List α) : List μ × List α :=
  match _h : r.read s with
  | none => ([], s)
  | some (m, n) => (m :: (drain (s.drop n)).1, (drain (s.drop n)).2)
termination_by s.length
decreasing_by
  all_goals
    have hpos := r.pos _h
    have hle := r.le_length _h
    simp only [List.length_drop]
    omega

theorem read_nil : r.read [] = none := by
  cases h : r.read [] with
  | none => rfl
  | some p =>
    have hpos := r.pos (m := p.1) (n := p.2) h
    have hle := r.le_length (m := p.1) (n := p.2) h
    rw [List.length_nil] at hle
    omega

theorem drain_of_none {s : List α} (h : r.read s = none) : r.drain s = ([], s) := by
  rw [drain]
  split
  · rfl
  · simp_all

theorem drain_of_some {s : List α} {m : μ} {n : ℕ} (h : r.read s = some (m, n)) :
    r.drain s = (m :: (r.drain (s.drop n)).1, (r.drain (s.drop n)).2) := by
  rw [drain]
  split
  · simp_all
  · rename_i m' n' h'
    rw [h', Option.some.injEq, Prod.mk.injEq] at h
    rw [h.1, h.2]

/-- **Nothing is read twice or otherwise when more arrives.** -/
theorem drain_append (s t : List α) :
    r.drain (s ++ t) =
      ((r.drain s).1 ++ (r.drain ((r.drain s).2 ++ t)).1, (r.drain ((r.drain s).2 ++ t)).2) := by
  induction s using Nat.strongRecMeasure List.length with
  | ind s ih =>
    cases h : r.read s with
    | none =>
      rw [r.drain_of_none h]
      rfl
    | some p =>
      obtain ⟨m, n⟩ := p
      have hpos := r.pos h
      have hle := r.le_length h
      have hrest := ih (s.drop n) (by simp only [List.length_drop]; omega)
      rw [r.drain_of_some h, r.drain_of_some (r.stable h t), List.drop_append_of_le_length hle,
        hrest]
      rfl

/-! ## A receiver -/

/-- What a receiver has read, and the letters it has not read yet. -/
structure Received (α μ : Type*) where
  messages : List μ
  rest : List α

/-- A chunk arrives. -/
def feed (x : Received α μ) (chunk : List α) : Received α μ where
  messages := x.messages ++ (r.drain (x.rest ++ chunk)).1
  rest := (r.drain (x.rest ++ chunk)).2

/-- All the chunks arrive, one after another. -/
def receive (chunks : List (List α)) : Received α μ := chunks.foldl r.feed ⟨[], []⟩

/-- **How the stream is chunked makes no difference.** -/
theorem receive_eq (chunks : List (List α)) :
    r.receive chunks = ⟨(r.drain chunks.flatten).1, (r.drain chunks.flatten).2⟩ := by
  induction chunks using List.reverseRecOn with
  | nil =>
    rw [List.flatten_nil, r.drain_of_none r.read_nil]
    rfl
  | append_singleton chunks chunk ih =>
    rw [receive, List.foldl_append, ← receive, ih, List.flatten_append, List.flatten_singleton,
      r.drain_append]
    rfl

/-! ## A stream of frames -/

/-- The letters stand for the message: all of them are read, and no more. -/
def Frames (frame : List α) (m : μ) : Prop := r.read frame = some (m, frame.length)

variable {r}

/-- As long as a letter of the frame is missing, nothing is read. -/
theorem Frames.read_of_isPrefix {frame s : List α} {m : μ} (h : r.Frames frame m)
    (hs : s <+: frame) (hne : s ≠ frame) : r.read s = none := by
  cases hread : r.read s with
  | none => rfl
  | some p =>
    obtain ⟨t, rfl⟩ := hs
    have hle := r.le_length (m := p.1) (n := p.2) hread
    have hwhole : some (m, (s ++ t).length) = some p := h.symm.trans (r.stable hread t)
    obtain ⟨-, hlength⟩ := Prod.mk.inj (Option.some.inj hwhole)
    rw [List.length_append] at hlength
    have ht : t = [] := List.length_eq_zero_iff.1 (by omega)
    exact absurd (by rw [ht, List.append_nil]) hne

theorem Frames.drain_append {frame : List α} {m : μ} (h : r.Frames frame m) (t : List α) :
    r.drain (frame ++ t) = (m :: (r.drain t).1, (r.drain t).2) := by
  rw [r.drain_of_some (r.stable h t), List.drop_left]

variable {β : Type*} {frame : β → List α} {message : β → μ}

/-- **What has arrived of a stream of frames** gives the messages that are complete, in
order, and what is left is the beginning of the next frame. -/
theorem drain_of_isPrefix (hframe : ∀ b, r.Frames (frame b) (message b)) (bs : List β)
    {s : List α} (hs : s <+: bs.flatMap frame) :
    ∃ k ≤ bs.length, (r.drain s).1 = (bs.take k).map message ∧
      s = (bs.take k).flatMap frame ++ (r.drain s).2 ∧
      ∀ b, bs[k]? = some b → (r.drain s).2 <+: frame b ∧ (r.drain s).2 ≠ frame b := by
  induction bs generalizing s with
  | nil =>
    have hnil : s = [] := List.prefix_nil.1 hs
    rw [hnil, r.drain_of_none r.read_nil]
    exact ⟨0, le_rfl, rfl, rfl, fun b hb => absurd hb (by simp)⟩
  | cons b bs ih =>
    rw [List.flatMap_cons] at hs
    by_cases hlength : s.length < (frame b).length
    · have hfirst : s <+: frame b := List.prefix_of_prefix_length_le hs
        (List.prefix_append _ _) hlength.le
      have hne : s ≠ frame b := fun h => absurd hlength (by rw [h]; exact Nat.lt_irrefl _)
      rw [r.drain_of_none ((hframe b).read_of_isPrefix hfirst hne)]
      refine ⟨0, Nat.zero_le _, rfl, rfl, fun b' hb' => ?_⟩
      obtain rfl : b = b' := Option.some.inj hb'
      exact ⟨hfirst, hne⟩
    · obtain ⟨t, rfl⟩ : frame b <+: s := List.prefix_of_prefix_length_le
        (List.prefix_append _ _) hs (Nat.le_of_not_lt hlength)
      obtain ⟨k, hk, hread, hsplit, hnext⟩ := ih ((List.prefix_append_right_inj _).1 hs)
      rw [(hframe b).drain_append]
      refine ⟨k + 1, Nat.succ_le_succ hk, ?_, ?_, hnext⟩
      · rw [hread, List.take_succ_cons, List.map_cons]
      · rw [List.take_succ_cons, List.flatMap_cons, List.append_assoc, ← hsplit]

/-- The whole stream gives all the messages. -/
theorem drain_flatMap (hframe : ∀ b, r.Frames (frame b) (message b)) (bs : List β) :
    r.drain (bs.flatMap frame) = (bs.map message, []) := by
  induction bs with
  | nil => exact r.drain_of_none r.read_nil
  | cons b bs ih => rw [List.flatMap_cons, (hframe b).drain_append, ih, List.map_cons]

/-! ## A stream of frames that may have been cut -/

variable {size : μ → ℕ}

/-- If a message tells its size, then what is read accounts for all letters. -/
theorem length_drain (hsize : ∀ {s m n}, r.read s = some (m, n) → n = size m) (s : List α) :
    s.length = ((r.drain s).1.map size).sum + (r.drain s).2.length := by
  induction s using Nat.strongRecMeasure List.length with
  | ind s ih =>
    cases h : r.read s with
    | none => simp [r.drain_of_none h]
    | some p =>
      obtain ⟨m, n⟩ := p
      have hpos := r.pos h
      have hle := r.le_length h
      have hrest := ih (s.drop n) (by simp only [List.length_drop]; omega)
      rw [List.length_drop] at hrest
      simp only [r.drain_of_some h, List.map_cons, List.sum_cons, ← hsize h]
      omega

/-- Cut frames are shorter than whole ones. -/
theorem length_cut_le {ps : List (β × List α)} (hcut : ∀ p ∈ ps, p.2 <+: frame p.1) :
    (ps.flatMap Prod.snd).length ≤ (ps.map fun p => (frame p.1).length).sum := by
  induction ps with
  | nil => exact le_rfl
  | cons p ps ih =>
    have hfirst := (hcut p (by simp)).length_le
    have hrest := ih fun q hq => hcut q (List.mem_cons_of_mem _ hq)
    rw [List.flatMap_cons, List.length_append, List.map_cons, List.sum_cons]
    omega

theorem eq_of_length_cut {ps : List (β × List α)} (hcut : ∀ p ∈ ps, p.2 <+: frame p.1)
    (hlength : (ps.map fun p => (frame p.1).length).sum ≤ (ps.flatMap Prod.snd).length) :
    ∀ p ∈ ps, p.2 = frame p.1 := by
  induction ps with
  | nil => exact fun p hp => absurd hp List.not_mem_nil
  | cons p ps ih =>
    have hcut' : ∀ q ∈ ps, q.2 <+: frame q.1 := fun q hq => hcut q (List.mem_cons_of_mem _ hq)
    have hfirst := (hcut p (by simp)).length_le
    have hrest := length_cut_le hcut'
    rw [List.flatMap_cons, List.length_append, List.map_cons, List.sum_cons] at hlength
    refine List.forall_mem_cons.2 ⟨(hcut p (by simp)).eq_of_length ?_, ih hcut' ?_⟩
    · omega
    · omega

/-- **All the messages are read exactly if no frame was cut.** -/
theorem drain_eq_iff (hframe : ∀ b, r.Frames (frame b) (message b))
    (hsize : ∀ {s m n}, r.read s = some (m, n) → n = size m) {ps : List (β × List α)}
    (hcut : ∀ p ∈ ps, p.2 <+: frame p.1) :
    (r.drain (ps.flatMap Prod.snd)).1 = ps.map (message ∘ Prod.fst) ↔
      ∀ p ∈ ps, p.2 = frame p.1 := by
  constructor
  · intro hread
    have hlength := length_drain hsize (ps.flatMap Prod.snd)
    have hsizes : ps.map (size ∘ message ∘ Prod.fst) = ps.map fun p => (frame p.1).length :=
      List.map_congr_left fun p _ => (hsize (hframe p.1)).symm
    rw [hread, List.map_map, hsizes] at hlength
    exact eq_of_length_cut hcut (by omega)
  · intro hwhole
    have hstream : ps.flatMap Prod.snd = (ps.map Prod.fst).flatMap frame := by
      rw [List.flatMap_map]
      exact List.flatMap_congr hwhole
    rw [hstream, drain_flatMap hframe, List.map_map]

end Reader

end Framing
