import Mathlib

/-!
# Cutting a word at a separator

The general theory of the leftmost occurrence of one word inside another and of
the pieces a word falls into when it is cut at every such occurrence, from the
left and without overlaps.

* `leftmost d s` — the index of the leftmost occurrence of `d` in `s`
  (`leftmost_eq_some_iff`, `leftmost_eq_none_iff`).
* `pieces d s` — the words between the occurrences, empty ones included.
* `fields d s` — the non-empty pieces.  No field is empty and none contains the
  separator (`ne_nil_of_mem_fields`, `not_infix_of_mem_fields`).
* `occurrences d s` — where the leftmost occurrences are that do not overlap
  (`leftmostDisjoint_iff`); the pieces are what is between them (`pieces_eq_cutAt`).
* `leftmost_append`, `fields_append` — if the first letter of the separator does
  not occur in `a`, then the first cut of `a ++ d ++ b` is right after `a`: a
  separator can not straddle `a` and what follows.
-/

namespace Separator

variable {α : Type*} [DecidableEq α]

/-! ## The leftmost occurrence -/

/-- The index of the leftmost occurrence of `d`, if there is one. -/
def leftmost (d : List α) : List α → Option ℕ
  | [] => if d = [] then some 0 else none
  | c :: cs => if d <+: c :: cs then some 0 else (leftmost d cs).map (· + 1)

theorem leftmost_eq_some_iff {d s : List α} {n : ℕ} :
    leftmost d s = some n ↔
      n ≤ s.length ∧ d <+: s.drop n ∧ ∀ m < n, ¬ d <+: s.drop m := by
  induction s generalizing n with
  | nil =>
    by_cases hd : d = []
    · subst hd
      simp only [leftmost, if_true, Option.some.injEq, List.length_nil]
      constructor
      · rintro rfl
        exact ⟨le_rfl, by simp, fun m hm => absurd hm (Nat.not_lt_zero m)⟩
      · rintro ⟨hn, -, -⟩
        omega
    · simp [leftmost, hd]
  | cons c cs ih =>
    by_cases hp : d <+: c :: cs
    · rw [leftmost, if_pos hp, Option.some.injEq]
      constructor
      · rintro rfl
        exact ⟨Nat.zero_le _, hp, fun m hm => absurd hm (Nat.not_lt_zero m)⟩
      · rintro ⟨-, -, hmin⟩
        by_contra hn
        exact hmin 0 (by omega) hp
    · rw [leftmost, if_neg hp, Option.map_eq_some_iff]
      constructor
      · rintro ⟨k, hk, rfl⟩
        obtain ⟨hle, hpre, hmin⟩ := ih.1 hk
        refine ⟨by simpa using hle, hpre, fun m hm => ?_⟩
        cases m with
        | zero => exact hp
        | succ m => exact hmin m (by omega)
      · rintro ⟨hle, hpre, hmin⟩
        cases n with
        | zero => exact absurd hpre hp
        | succ k =>
          refine ⟨k, ih.2 ⟨by simpa using hle, hpre, fun m hm => ?_⟩, rfl⟩
          exact hmin (m + 1) (by omega)

theorem leftmost_eq_none_iff {d s : List α} : leftmost d s = none ↔ ¬ d <:+: s := by
  induction s with
  | nil => simp [leftmost]
  | cons c cs ih =>
    rw [leftmost, List.infix_cons_iff]
    by_cases hp : d <+: c :: cs
    · simp [hp]
    · simp [hp, ih]

/-- The occurrence found is one: it cuts the word in three. -/
theorem eq_of_leftmost {d s : List α} {n : ℕ} (h : leftmost d s = some n) :
    s = s.take n ++ (d ++ s.drop (n + d.length)) := by
  obtain ⟨-, ⟨t, ht⟩, -⟩ := leftmost_eq_some_iff.1 h
  have hdrop : s.drop (n + d.length) = t := by
    rw [← List.drop_drop, ← ht, List.drop_left]
  rw [hdrop, ht, List.take_append_drop]

theorem leftmost_add_length_le {d s : List α} {n : ℕ} (h : leftmost d s = some n) :
    n + d.length ≤ s.length := by
  have hlen := congrArg List.length (eq_of_leftmost h)
  have hle := (leftmost_eq_some_iff.1 h).1
  simp only [List.length_append, List.length_take, List.length_drop] at hlen
  omega

/-- Nothing before the occurrence found contains the separator. -/
theorem not_infix_take_leftmost {d s : List α} {n : ℕ} (hd : d ≠ [])
    (h : leftmost d s = some n) : ¬ d <:+: s.take n := by
  rintro ⟨u, v, huv⟩
  obtain ⟨hle, -, hmin⟩ := leftmost_eq_some_iff.1 h
  have hpos : 0 < d.length := List.length_pos_iff.2 hd
  have hlen := congrArg List.length huv
  simp only [List.length_append, List.length_take] at hlen
  refine hmin u.length (by omega) ⟨v ++ s.drop n, ?_⟩
  have hs : s = u ++ (d ++ (v ++ s.drop n)) := by
    conv_lhs => rw [← List.take_append_drop n s, ← huv]
    simp only [List.append_assoc]
  rw [hs, List.drop_left]
  simp only [← hs]

/-- What comes behind an occurrence does not move it. -/
theorem leftmost_stable {d s : List α} {n : ℕ} (h : leftmost d s = some n) (t : List α) :
    leftmost d (s ++ t) = some n := by
  obtain ⟨hle, hpre, hmin⟩ := leftmost_eq_some_iff.1 h
  have hlength := leftmost_add_length_le h
  rw [leftmost_eq_some_iff]
  refine ⟨by rw [List.length_append]; omega, ?_, fun m hm hocc => hmin m hm ?_⟩
  · rw [List.drop_append_of_le_length hle]
    exact hpre.trans (List.prefix_append _ _)
  · rw [List.drop_append_of_le_length (by omega)] at hocc
    refine List.prefix_of_prefix_length_le hocc (List.prefix_append _ _) ?_
    rw [List.length_drop]
    omega

/-- A separator whose first letter does not occur in `a` can not begin inside `a`. -/
theorem leftmost_append {x : α} {d a : List α} (ha : x ∉ a) (b : List α) :
    leftmost (x :: d) (a ++ (x :: d ++ b)) = some a.length := by
  induction a with
  | nil =>
    rw [List.nil_append, List.cons_append, leftmost, if_pos ⟨b, rfl⟩]
    rfl
  | cons c cs ih =>
    have hcx : x ≠ c := fun h => ha (by simp [h])
    have hcs : x ∉ cs := fun h => ha (List.mem_cons_of_mem _ h)
    have hnp : ¬ x :: d <+: c :: (cs ++ (x :: d ++ b)) := by
      rw [List.cons_prefix_cons]
      exact fun h => hcx h.1
    rw [List.cons_append, leftmost, if_neg hnp, ih hcs]
    rfl

/-- The same for a separator of one letter. -/
theorem leftmost_singleton {x : α} {a : List α} (ha : x ∉ a) (b : List α) :
    leftmost [x] (a ++ x :: b) = some a.length :=
  leftmost_append ha b

theorem leftmost_singleton_eq_none_iff {x : α} {s : List α} :
    leftmost [x] s = none ↔ x ∉ s := by
  rw [leftmost_eq_none_iff, List.singleton_infix_iff]

/-! ## Pieces and fields -/

/-- The pieces of a word between the occurrences of the separator. -/
def pieces (d s : List α) : List (List α) :=
  if d = [] then [s]
  else
    match _h : leftmost d s with
    | none => [s]
    | some n => s.take n :: pieces d (s.drop (n + d.length))
termination_by s.length
decreasing_by
  have hpos : 0 < d.length := List.length_pos_iff.2 ‹_›
  have hle := leftmost_add_length_le _h
  simp only [List.length_drop]
  omega

/-- The non-empty pieces. -/
def fields (d s : List α) : List (List α) := (pieces d s).filter (· ≠ [])

theorem pieces_of_none {d s : List α} (h : leftmost d s = none) : pieces d s = [s] := by
  rw [pieces]
  split
  · rfl
  · split
    · rfl
    · simp_all

theorem pieces_of_some {d s : List α} {n : ℕ} (hd : d ≠ []) (h : leftmost d s = some n) :
    pieces d s = s.take n :: pieces d (s.drop (n + d.length)) := by
  rw [pieces, if_neg hd]
  split
  · simp_all
  · simp_all

theorem pieces_ne_nil (d s : List α) : pieces d s ≠ [] := by
  by_cases hd : d = []
  · rw [pieces, if_pos hd]
    exact List.cons_ne_nil _ _
  · cases h : leftmost d s with
    | none =>
      rw [pieces_of_none h]
      exact List.cons_ne_nil _ _
    | some n =>
      rw [pieces_of_some hd h]
      exact List.cons_ne_nil _ _

/-- No piece contains the separator. -/
theorem not_infix_of_mem_pieces {d s f : List α} (hd : d ≠ []) (hf : f ∈ pieces d s) :
    ¬ d <:+: f := by
  induction s using Nat.strongRecMeasure List.length with
  | ind s ih =>
    cases h : leftmost d s with
    | none =>
      rw [pieces_of_none h, List.mem_singleton] at hf
      rw [hf]
      exact leftmost_eq_none_iff.1 h
    | some n =>
      rw [pieces_of_some hd h, List.mem_cons] at hf
      rcases hf with rfl | hf
      · exact not_infix_take_leftmost hd h
      · have hle := leftmost_add_length_le h
        have hpos : 0 < d.length := List.length_pos_iff.2 hd
        exact ih _ (by simp only [List.length_drop]; omega) hf

theorem ne_nil_of_mem_fields {d s f : List α} (hf : f ∈ fields d s) : f ≠ [] := by
  simpa using (List.mem_filter.1 hf).2

theorem not_infix_of_mem_fields {d s f : List α} (hd : d ≠ []) (hf : f ∈ fields d s) :
    ¬ d <:+: f :=
  not_infix_of_mem_pieces hd (List.mem_filter.1 hf).1

/-- A word that does not contain the separator is its own only field. -/
theorem fields_of_no_occurrence {d s : List α} (h : ¬ d <:+: s) :
    fields d s = if s = [] then [] else [s] := by
  rw [fields, pieces_of_none (leftmost_eq_none_iff.2 h)]
  by_cases hs : s = [] <;> simp [hs]

theorem fields_nil {d : List α} (hd : d ≠ []) : fields d [] = [] := by
  rw [fields_of_no_occurrence (by simpa using hd), if_pos rfl]

theorem fields_of_some {d s : List α} {n : ℕ} (hd : d ≠ []) (h : leftmost d s = some n) :
    fields d s =
      (if s.take n = [] then [] else [s.take n]) ++ fields d (s.drop (n + d.length)) := by
  rw [fields, pieces_of_some hd h, List.filter_cons]
  by_cases hs : s.take n = [] <;> simp [hs, fields]

/-- The first field of `a ++ d ++ b` is `a`, when the separator can not begin in `a`. -/
theorem fields_append {x : α} {d a : List α} (ha : x ∉ a) (b : List α) :
    fields (x :: d) (a ++ (x :: d ++ b)) =
      (if a = [] then [] else [a]) ++ fields (x :: d) b := by
  rw [fields_of_some (List.cons_ne_nil x d) (leftmost_append ha b)]
  have hdrop : (a ++ (x :: d ++ b)).drop (a.length + (x :: d).length) = b := by
    rw [← List.drop_drop, List.drop_left, List.drop_left]
  rw [List.take_left, hdrop]

/-- A separator in front is skipped. -/
theorem fields_separator_append (x : α) (d b : List α) :
    fields (x :: d) (x :: d ++ b) = fields (x :: d) b := by
  simpa using fields_append (a := []) (d := d) (List.not_mem_nil (a := x)) b

/-- The fields of a list of words, each followed by the separator. -/
theorem fields_flatMap_append {x : α} {d : List α} {ws : List (List α)}
    (hne : ∀ w ∈ ws, w ≠ []) (hx : ∀ w ∈ ws, x ∉ w) (b : List α) :
    fields (x :: d) (ws.flatMap (· ++ (x :: d)) ++ b) = ws ++ fields (x :: d) b := by
  induction ws with
  | nil => rfl
  | cons w ws ih =>
    rw [List.flatMap_cons, List.append_assoc, List.append_assoc,
      fields_append (hx w (by simp)), if_neg (hne w (by simp)),
      ih (fun v hv => hne v (by simp [hv])) (fun v hv => hx v (by simp [hv]))]
    rfl

/-! ## Blocks of words -/

omit [DecidableEq α] in
theorem intercalate_singleton (d w : List α) : d.intercalate [w] = w := by
  simp [List.intercalate]

omit [DecidableEq α] in
theorem intercalate_cons_cons (d w w' : List α) (ws : List (List α)) :
    d.intercalate (w :: w' :: ws) = w ++ (d ++ d.intercalate (w' :: ws)) := by
  simp [List.intercalate, List.intersperse]

omit [DecidableEq α] in
theorem prefix_intercalate_cons (d w : List α) (ws : List (List α)) :
    w <+: d.intercalate (w :: ws) := by
  cases ws with
  | nil => rw [intercalate_singleton]
  | cons w' ws =>
    rw [intercalate_cons_cons]
    exact List.prefix_append _ _

theorem leftmost_append_left {x : α} {d a : List α} (ha : x ∉ a) (s : List α) :
    leftmost (x :: d) (a ++ s) = (leftmost (x :: d) s).map (a.length + ·) := by
  induction a with
  | nil => simp
  | cons c cs ih =>
    have hnp : ¬ x :: d <+: c :: (cs ++ s) := by
      rw [List.cons_prefix_cons]
      exact fun h => ha (by simp [h.1])
    rw [List.cons_append, leftmost, if_neg hnp, ih fun h => ha (List.mem_cons_of_mem _ h),
      Option.map_map]
    congr 1
    funext n
    simp only [Function.comp_apply, List.length_cons]
    omega

/-- A separator that no other one follows is not the beginning of a doubled one. -/
theorem leftmost_double {x : α} {e s : List α} (he : x ∉ e) (hs : ¬ x :: e <+: s) :
    leftmost (x :: e ++ (x :: e)) (x :: e ++ s) =
      (leftmost (x :: e ++ (x :: e)) s).map ((x :: e).length + ·) := by
  have hnp : ¬ x :: e ++ (x :: e) <+: x :: (e ++ s) := by
    change ¬ x :: e ++ (x :: e) <+: x :: e ++ s
    rwa [List.prefix_append_right_inj]
  have hrest : leftmost (x :: e ++ (x :: e)) (e ++ s) =
      (leftmost (x :: e ++ (x :: e)) s).map (e.length + ·) :=
    leftmost_append_left he s
  change leftmost (x :: e ++ (x :: e)) (x :: (e ++ s)) = _
  rw [leftmost, if_neg hnp, hrest, Option.map_map]
  congr 1
  funext n
  simp only [Function.comp_apply, List.length_cons]
  omega

/-- **The end of a block**: the first doubled separator after non-empty words is the
one behind them. -/
theorem leftmost_block {x : α} {e : List α} (he : x ∉ e) {ws : List (List α)}
    (hne : ∀ w ∈ ws, w ≠ []) (hx : ∀ w ∈ ws, x ∉ w) (b : List α) :
    leftmost (x :: e ++ (x :: e)) ((x :: e).intercalate ws ++ (x :: e ++ (x :: e) ++ b)) =
      some ((x :: e).intercalate ws).length := by
  induction ws with
  | nil => exact leftmost_append (List.not_mem_nil (a := x)) b
  | cons w ws ih =>
    cases ws with
    | nil =>
      rw [intercalate_singleton]
      exact leftmost_append (hx w (by simp)) b
    | cons w' ws =>
      have hblock := ih (fun v hv => hne v (List.mem_cons_of_mem _ hv))
        (fun v hv => hx v (List.mem_cons_of_mem _ hv))
      -- the separator behind `w` is followed by the first letter of `w'`
      have hnext : ¬ x :: e <+:
          (x :: e).intercalate (w' :: ws) ++ (x :: e ++ (x :: e) ++ b) := by
        obtain ⟨c, cs, rfl⟩ := List.exists_cons_of_ne_nil (hne w' (by simp))
        obtain ⟨t, ht⟩ := prefix_intercalate_cons (x :: e) (c :: cs) ws
        rw [← ht, List.cons_append, List.cons_append, List.cons_prefix_cons]
        exact fun h => hx (c :: cs) (by simp) (by simp [h.1])
      have hskip : leftmost (x :: e ++ (x :: e)) (w ++ (x :: e ++
          ((x :: e).intercalate (w' :: ws) ++ (x :: e ++ (x :: e) ++ b)))) = _ :=
        leftmost_append_left (hx w (by simp)) _
      rw [intercalate_cons_cons, List.append_assoc, List.append_assoc, hskip]
      refine (congrArg (Option.map (w.length + ·)) (leftmost_double he hnext)).trans ?_
      rw [hblock]
      simp only [Option.map_some, List.length_append]

theorem pieces_intercalate {x : α} {e : List α} {ws : List (List α)} (hws : ws ≠ [])
    (hx : ∀ w ∈ ws, x ∉ w) : pieces (x :: e) ((x :: e).intercalate ws) = ws := by
  induction ws with
  | nil => exact absurd rfl hws
  | cons w ws ih =>
    cases ws with
    | nil =>
      rw [intercalate_singleton]
      apply pieces_of_none
      rw [leftmost_eq_none_iff]
      exact fun h => hx w (by simp) (h.subset (List.mem_cons_self ..))
    | cons w' ws =>
      have hcut := leftmost_append (d := e) (hx w (by simp)) ((x :: e).intercalate (w' :: ws))
      rw [intercalate_cons_cons, pieces_of_some (List.cons_ne_nil x e) hcut, List.take_left,
        ← List.drop_drop, List.drop_left, List.drop_left,
        ih (List.cons_ne_nil w' ws) fun v hv => hx v (List.mem_cons_of_mem _ hv)]

/-- **Nothing is lost by cutting**: the separator puts the pieces together again. -/
theorem intercalate_pieces {d : List α} (hd : d ≠ []) (s : List α) :
    d.intercalate (pieces d s) = s := by
  induction s using Nat.strongRecMeasure List.length with
  | ind s ih =>
    cases h : leftmost d s with
    | none => rw [pieces_of_none h, intercalate_singleton]
    | some n =>
      have hle := leftmost_add_length_le h
      have hpos : 0 < d.length := List.length_pos_iff.2 hd
      have hrest := ih (s.drop (n + d.length)) (by simp only [List.length_drop]; omega)
      obtain ⟨w, ws, hpieces⟩ := List.exists_cons_of_ne_nil (pieces_ne_nil d
        (s.drop (n + d.length)))
      rw [hpieces] at hrest
      rw [pieces_of_some hd h, hpieces, intercalate_cons_cons, hrest, ← eq_of_leftmost h]

/-! ## Occurrences -/

/-- The indices of the leftmost occurrences of `d` that do not overlap, from the left. -/
def occurrences (d s : List α) : List ℕ :=
  if d = [] then []
  else
    match _h : leftmost d s with
    | none => []
    | some n => n :: (occurrences d (s.drop (n + d.length))).map (n + d.length + ·)
termination_by s.length
decreasing_by
  have hpos : 0 < d.length := List.length_pos_iff.2 ‹_›
  have hle := leftmost_add_length_le _h
  simp only [List.length_drop]
  omega

/-- What is between some occurrences, from an index on. -/
def cutAt (d s : List α) : ℕ → List ℕ → List (List α)
  | start, [] => [s.drop start]
  | start, i :: is => (s.drop start).take (i - start) :: cutAt d s (i + d.length) is

/-- What it is for a list of indices to be that of the leftmost occurrences: no two of them
overlap, and every other one overlaps one of them that begins before it. -/
structure LeftmostDisjoint (d s : List α) (is : List ℕ) : Prop where
  apart : is.Pairwise fun i j => i + d.length ≤ j
  occurs : ∀ i ∈ is, d <+: s.drop i
  covers : ∀ m, d <+: s.drop m → ∃ i ∈ is, i ≤ m ∧ m < i + d.length

theorem occurrences_of_none {d s : List α} (h : leftmost d s = none) :
    occurrences d s = [] := by
  rw [occurrences]
  split
  · rfl
  · split
    · rfl
    · simp_all

theorem occurrences_of_some {d s : List α} {n : ℕ} (hd : d ≠ []) (h : leftmost d s = some n) :
    occurrences d s =
      n :: (occurrences d (s.drop (n + d.length))).map (n + d.length + ·) := by
  rw [occurrences, if_neg hd]
  split
  · simp_all
  · simp_all

omit [DecidableEq α] in
theorem length_cutAt (d s : List α) (start : ℕ) (is : List ℕ) :
    (cutAt d s start is).length = is.length + 1 := by
  induction is generalizing start with
  | nil => rfl
  | cons i is ih => rw [cutAt, List.length_cons, ih, List.length_cons]

omit [DecidableEq α] in
theorem cutAt_drop (d s : List α) (k start : ℕ) (is : List ℕ) :
    cutAt d (s.drop k) start is = cutAt d s (k + start) (is.map (k + ·)) := by
  induction is generalizing start with
  | nil => rw [cutAt, List.drop_drop, List.map_nil, cutAt]
  | cons i is ih =>
    have hsub : k + i - (k + start) = i - start := by omega
    rw [cutAt, ih, List.map_cons, cutAt, List.drop_drop, hsub, Nat.add_assoc]

/-- **The pieces are what is between the leftmost occurrences.** -/
theorem pieces_eq_cutAt {d : List α} (hd : d ≠ []) (s : List α) :
    pieces d s = cutAt d s 0 (occurrences d s) := by
  induction s using Nat.strongRecMeasure List.length with
  | ind s ih =>
    cases h : leftmost d s with
    | none => rw [pieces_of_none h, occurrences_of_none h, cutAt, List.drop_zero]
    | some n =>
      have hle := leftmost_add_length_le h
      have hpos : 0 < d.length := List.length_pos_iff.2 hd
      rw [pieces_of_some hd h, occurrences_of_some hd h, cutAt, List.drop_zero, Nat.sub_zero,
        ih _ (by simp only [List.length_drop]; omega), cutAt_drop, Nat.add_zero]

theorem length_fields_le {d : List α} (hd : d ≠ []) (s : List α) :
    (fields d s).length ≤ (occurrences d s).length + 1 := by
  rw [← length_cutAt d s 0, ← pieces_eq_cutAt hd]
  exact List.length_filter_le ..

omit [DecidableEq α] in
/-- Behind an occurrence that is the first one, what is left are the others. -/
theorem leftmostDisjoint_cons {d s : List α} {n : ℕ} (hpre : d <+: s.drop n)
    (hmin : ∀ m < n, ¬ d <+: s.drop m) {is : List ℕ} :
    LeftmostDisjoint d s (n :: is.map (n + d.length + ·)) ↔
      LeftmostDisjoint d (s.drop (n + d.length)) is := by
  constructor
  · intro h
    refine ⟨?_, fun i hi => ?_, fun m hm => ?_⟩
    · have happart := (List.pairwise_cons.1 h.apart).2
      rw [List.pairwise_map] at happart
      exact happart.imp fun hij => by omega
    · rw [List.drop_drop]
      exact h.occurs _ (List.mem_cons_of_mem _ (List.mem_map_of_mem hi))
    · rw [List.drop_drop] at hm
      obtain ⟨j, hj, hjm, hmj⟩ := h.covers _ hm
      rcases List.mem_cons.1 hj with rfl | hj
      · omega
      · obtain ⟨i, hi, rfl⟩ := List.mem_map.1 hj
        exact ⟨i, hi, by omega, by omega⟩
  · intro h
    refine ⟨?_, fun j hj => ?_, fun m hm => ?_⟩
    · rw [List.pairwise_cons, List.pairwise_map]
      refine ⟨fun j hj => ?_, h.apart.imp fun hij => by omega⟩
      obtain ⟨i, -, rfl⟩ := List.mem_map.1 hj
      omega
    · rcases List.mem_cons.1 hj with rfl | hj
      · exact hpre
      · obtain ⟨i, hi, rfl⟩ := List.mem_map.1 hj
        rw [← List.drop_drop]
        exact h.occurs i hi
    · have hnm : n ≤ m := not_lt.1 fun hlt => hmin m hlt hm
      by_cases hfirst : m < n + d.length
      · exact ⟨n, List.mem_cons_self, hnm, hfirst⟩
      · obtain ⟨k, rfl⟩ := Nat.exists_eq_add_of_le (not_lt.1 hfirst)
        rw [← List.drop_drop] at hm
        obtain ⟨i, hi, hik, hki⟩ := h.covers k hm
        exact ⟨_, List.mem_cons_of_mem _ (List.mem_map_of_mem hi), by omega, by omega⟩

omit [DecidableEq α] in
/-- The first occurrence comes first. -/
theorem LeftmostDisjoint.exists_cons {d s : List α} {n : ℕ} {is : List ℕ} (hd : d ≠ [])
    (h : LeftmostDisjoint d s is) (hpre : d <+: s.drop n) (hmin : ∀ m < n, ¬ d <+: s.drop m) :
    ∃ js : List ℕ, is = n :: js.map (n + d.length + ·) := by
  have hpos : 0 < d.length := List.length_pos_iff.2 hd
  obtain ⟨i, hi, hin, -⟩ := h.covers n hpre
  have heq : i = n := le_antisymm hin (not_lt.1 fun hlt => hmin i hlt (h.occurs i hi))
  subst heq
  cases is with
  | nil => cases hi
  | cons j is =>
    obtain ⟨hhead, -⟩ := List.pairwise_cons.1 h.apart
    have hj : j = i := by
      rcases List.mem_cons.1 hi with hij | hi
      · exact hij.symm
      · have hji := hhead i hi
        exact absurd (h.occurs j List.mem_cons_self) (hmin j (by omega))
    subst hj
    refine ⟨is.map (· - (j + d.length)), ?_⟩
    have hback : is.map (fun k => j + d.length + (k - (j + d.length))) = is.map id :=
      List.map_congr_left fun k hk => Nat.add_sub_cancel' (hhead k hk)
    rw [List.map_id] at hback
    rw [List.map_map]
    exact congrArg (j :: ·) hback.symm

/-- **There is one such list of indices.** -/
theorem leftmostDisjoint_iff {d s : List α} {is : List ℕ} (hd : d ≠ []) :
    LeftmostDisjoint d s is ↔ is = occurrences d s := by
  induction s using Nat.strongRecMeasure List.length generalizing is with
  | ind s ih =>
    cases h : leftmost d s with
    | none =>
      have hno : ∀ m, ¬ d <+: s.drop m := fun m hm =>
        leftmost_eq_none_iff.1 h (hm.isInfix.trans (List.drop_suffix m s).isInfix)
      rw [occurrences_of_none h]
      constructor
      · intro his
        exact List.eq_nil_iff_forall_not_mem.2 fun i hi => hno i (his.occurs i hi)
      · rintro rfl
        exact ⟨List.Pairwise.nil, nofun, fun m hm => absurd hm (hno m)⟩
    | some n =>
      obtain ⟨-, hpre, hmin⟩ := leftmost_eq_some_iff.1 h
      have hpos : 0 < d.length := List.length_pos_iff.2 hd
      have hle := leftmost_add_length_le h
      have hrec := fun js => @ih (s.drop (n + d.length))
        (by simp only [List.length_drop]; omega) js
      rw [occurrences_of_some hd h]
      constructor
      · intro his
        obtain ⟨js, rfl⟩ := his.exists_cons hd hpre hmin
        rw [(hrec js).1 ((leftmostDisjoint_cons hpre hmin).1 his)]
      · rintro rfl
        exact (leftmostDisjoint_cons hpre hmin).2 ((hrec _).2 rfl)

end Separator
