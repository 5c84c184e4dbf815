import Mathlib.Algebra.BigOperators.Group.Finset.Piecewise
import Mathlib.Algebra.Order.BigOperators.Group.Finset
import Mathlib.Data.List.Chain
import Mathlib.Data.Fintype.Card
import Mathlib.Logic.Relation

/-!
# Threads around a monitor

Data under one lock with one condition variable, threads that serve it and clients
that change it.  A serving thread takes the lock and waits until there is something to
do; then it takes a job, or leaves for good.  A client changes the data in a critical
section of its own and notifies the sleepers afterwards, when it has given up the lock.

* `Program` — the critical sections.
* `Step`, `Reachable` — the threads and the clients, step by step in any order.  A
  critical section is one step, and so is to give up the lock and fall asleep.
* `Reachable.balanced` — every job that was taken is being worked on or finished.
* `Laws`, `Reachable.alert` — when sections keep the laws, no wake-up is lost.
* `length_le_rank`, `Alert.exists_due` — a closed monitor comes to its end, and everybody
  leaves.
-/

namespace Monitor

/-- Where a serving thread is. -/
inductive Thread (A : Type*)
  /-- On its way to the lock. -/
  | awake
  /-- In `wait`. -/
  | asleep
  /-- With a job, outside of the lock. -/
  | busy (job : A)
  | gone
  deriving DecidableEq

/-- What the critical section of a serving thread comes to. -/
inductive Turn (D A : Type*)
  /-- The predicate of `wait` is false. -/
  | wait
  | take (job : A) (data : D)
  | leave

/-- The critical sections of a program: of its serving threads, of the clients that
notify one sleeper, which may be refused, and of those that notify all. -/
structure Program (D A C E : Type*) where
  serve : D → Turn D A
  post : C → D → D × Except E Unit
  close : D → D

/-- The data, the threads and the notifications that are still to be issued. -/
structure State (ι D A : Type*) where
  data : D
  threads : ι → Thread A
  notifyOne : ℕ
  notifyAll : ℕ
  /-- Ghost: the jobs that were taken, in order. -/
  taken : List A
  /-- Ghost: the jobs that were finished, in order. -/
  finished : List A

/-- The state in which all threads set out for the lock. -/
def State.start (ι : Type*) {D : Type*} (A : Type*) (data : D) : State ι D A :=
  ⟨data, fun _ => .awake, 0, 0, [], []⟩

/-- Wake a thread up, if it is asleep. -/
def Thread.wakeUp {A : Type*} : Thread A → Thread A
  | .asleep => .awake
  | t => t

@[simp] theorem Thread.wakeUp_ne_asleep {A : Type*} (t : Thread A) : t.wakeUp ≠ .asleep := by
  cases t <;> exact nofun

/-- Only a sleeper is changed. -/
theorem Thread.eq_of_wakeUp {A : Type*} {t : Thread A} (u : Thread A) (hu : u ≠ .awake)
    (h : t.wakeUp = u) : t = u := by
  cases t with
  | asleep => exact absurd h.symm hu
  | _ => exact h

variable {ι D A C E : Type*} [DecidableEq ι] (prog : Program D A C E)

/-- One step of one thread or client. -/
inductive Step : State ι D A → State ι D A → Prop
  | wait {s : State ι D A} {i : ι} (hi : s.threads i = .awake)
      (hserve : prog.serve s.data = .wait) :
      Step s { s with threads := Function.update s.threads i .asleep }
  | take {s : State ι D A} {i : ι} {job : A} {data : D} (hi : s.threads i = .awake)
      (hserve : prog.serve s.data = .take job data) :
      Step s { s with
        data
        threads := Function.update s.threads i (.busy job)
        taken := s.taken ++ [job] }
  | leave {s : State ι D A} {i : ι} (hi : s.threads i = .awake)
      (hserve : prog.serve s.data = .leave) :
      Step s { s with threads := Function.update s.threads i .gone }
  | finish {s : State ι D A} {i : ι} {job : A} (hi : s.threads i = .busy job) :
      Step s { s with
        threads := Function.update s.threads i .awake
        finished := s.finished ++ [job] }
  /-- A thread may wake up without being notified. -/
  | spurious {s : State ι D A} {i : ι} (hi : s.threads i = .asleep) :
      Step s { s with threads := Function.update s.threads i .awake }
  | post {s : State ι D A} {c : C} {data : D} (hpost : prog.post c s.data = (data, .ok ())) :
      Step s { s with data, notifyOne := s.notifyOne + 1 }
  | refused {s : State ι D A} {c : C} {data : D} {e : E}
      (hpost : prog.post c s.data = (data, .error e)) : Step s { s with data }
  /-- `notify_one` wakes at least one of the sleepers. -/
  | notifyOne {s : State ι D A} (woken : Finset ι) (hpending : 0 < s.notifyOne)
      (hasleep : ∀ i ∈ woken, s.threads i = .asleep)
      (hsome : (∃ i, s.threads i = .asleep) → woken.Nonempty) :
      Step s { s with
        threads := fun i => if i ∈ woken then .awake else s.threads i
        notifyOne := s.notifyOne - 1 }
  | close {s : State ι D A} :
      Step s { s with data := prog.close s.data, notifyAll := s.notifyAll + 1 }
  | notifyAll {s : State ι D A} (hpending : 0 < s.notifyAll) :
      Step s { s with
        threads := fun i => (s.threads i).wakeUp
        notifyAll := s.notifyAll - 1 }

/-- What the state can become. -/
def Reachable (s₀ s : State ι D A) : Prop := Relation.ReflTransGen (Step prog) s₀ s

variable {prog}

/-- **The invariant rule.** -/
theorem Reachable.invariant {I : State ι D A → Prop} {s₀ s : State ι D A}
    (h : Reachable prog s₀ s) (hinit : I s₀) (hstep : ∀ s s', I s → Step prog s s' → I s') :
    I s := by
  induction h with
  | refl => exact hinit
  | tail _ hs ih => exact hstep _ _ ih hs

/-! ## Jobs -/

section Jobs

variable [Fintype ι] [DecidableEq A]

/-- The threads that work on a job. -/
def State.workers (s : State ι D A) (job : A) : Finset ι :=
  Finset.univ.filter fun i => s.threads i = .busy job

/-- Every job that was taken is being worked on or finished, as often as it was taken. -/
def Balanced (s : State ι D A) : Prop :=
  ∀ job, s.taken.count job = (s.workers job).card + s.finished.count job

/-- One thread changes. -/
theorem card_filter_update (threads : ι → Thread A) (i : ι) (t u : Thread A) :
    (Finset.univ.filter fun k => Function.update threads i t k = u).card +
        (if threads i = u then 1 else 0) =
      (Finset.univ.filter fun k => threads k = u).card + (if t = u then 1 else 0) := by
  have hupdate : (fun k => if Function.update threads i t k = u then 1 else 0) =
      Function.update (fun k => if threads k = u then 1 else 0) i (if t = u then 1 else 0) := by
    funext k
    by_cases hk : k = i
    · subst hk
      rw [Function.update_self, Function.update_self]
    · rw [Function.update_of_ne hk, Function.update_of_ne hk]
  rw [Finset.card_filter, Finset.card_filter, hupdate,
    Finset.sum_update_of_mem (Finset.mem_univ i),
    Finset.sum_eq_add_sum_sdiff_singleton_of_mem (Finset.mem_univ i)
      (fun k => if threads k = u then 1 else 0)]
  omega

/-- A thread without a job gets none. -/
theorem card_filter_update_idle {threads : ι → Thread A} {i : ι} {u : Thread A}
    (hi : threads i = u) (t : Thread A) (hu : ∀ job, u ≠ .busy job) (ht : ∀ job, t ≠ .busy job)
    (job : A) :
    (Finset.univ.filter fun k => threads k = .busy job).card =
      (Finset.univ.filter fun k => Function.update threads i t k = .busy job).card := by
  have hcard := card_filter_update threads i t (.busy job)
  rw [hi, if_neg (hu job), if_neg (ht job)] at hcard
  exact hcard.symm

omit [DecidableEq ι] in
theorem balanced_start (data : D) : Balanced (State.start ι A data) := by
  intro job
  simp [State.start, State.workers]

theorem Step.balanced {s s' : State ι D A} (h : Balanced s) (hs : Step prog s s') :
    Balanced s' := by
  intro job
  have hjob := h job
  rw [State.workers] at hjob ⊢
  cases hs with
  | wait hi =>
    have hcard := card_filter_update_idle hi .asleep nofun nofun job
    exact hjob.trans (congrArg (· + _) hcard)
  | @take i job' data hi =>
    have hcard := card_filter_update s.threads i (.busy job') (.busy job)
    rw [hi] at hcard
    simp only [reduceCtorEq, if_false, Thread.busy.injEq] at hcard
    simp only [List.count_append, List.count_singleton, beq_iff_eq]
    omega
  | leave hi =>
    have hcard := card_filter_update_idle hi .gone nofun nofun job
    exact hjob.trans (congrArg (· + _) hcard)
  | @finish i job' hi =>
    have hcard := card_filter_update s.threads i .awake (.busy job)
    rw [hi] at hcard
    simp only [reduceCtorEq, if_false, Thread.busy.injEq] at hcard
    simp only [List.count_append, List.count_singleton, beq_iff_eq]
    omega
  | spurious hi =>
    have hcard := card_filter_update_idle hi .awake nofun nofun job
    exact hjob.trans (congrArg (· + _) hcard)
  | post => exact hjob
  | refused => exact hjob
  | notifyOne woken hpending hasleep =>
    have hsame : ∀ i, (if i ∈ woken then .awake else s.threads i) = .busy job ↔
        s.threads i = .busy job := by
      intro i
      split_ifs with hi
      · rw [hasleep i hi]
        exact ⟨nofun, nofun⟩
      · exact Iff.rfl
    simp only [hsame]
    exact hjob
  | close => exact hjob
  | notifyAll =>
    have hsame : ∀ i, (s.threads i).wakeUp = .busy job ↔ s.threads i = .busy job :=
      fun i => ⟨Thread.eq_of_wakeUp _ nofun, fun hi => by rw [hi]; rfl⟩
    simp only [hsame]
    exact hjob

/-- **No job is lost or done twice.** -/
theorem Reachable.balanced {data : D} {s : State ι D A}
    (h : Reachable prog (State.start ι A data) s) : Balanced s :=
  h.invariant (balanced_start data) fun _ _ => Step.balanced

end Jobs

/-! ## One thread -/

/-- The job that a thread works on. -/
def Thread.job? : Thread A → Option A
  | .busy job => some job
  | _ => none

/-- A single thread has finished the jobs that were taken before its own. -/
theorem Reachable.inTurn [Unique ι] {data : D} {s : State ι D A}
    (h : Reachable prog (State.start ι A data) s) :
    s.taken = s.finished ++ (s.threads default).job?.toList := by
  -- whichever thread takes a step, it is the only one
  have hupdate : ∀ (threads : ι → Thread A) (i : ι) (t : Thread A),
      Function.update threads i t default = t := by
    intro threads i t
    rw [Unique.eq_default i, Function.update_self]
  refine h.invariant (I := fun s => s.taken = s.finished ++ (s.threads default).job?.toList)
    rfl fun s s' hs hstep => ?_
  have hthread : ∀ {i : ι} {t : Thread A}, s.threads i = t →
      s.taken = s.finished ++ t.job?.toList := by
    rintro i t rfl
    rwa [Unique.eq_default i]
  cases hstep with
  | wait hi hserve =>
    have hnone := hthread hi
    simp only [hupdate]
    exact hnone
  | @take i job data hi hserve =>
    simp only [hupdate, hthread hi]
    exact congrArg (· ++ [job]) (List.append_nil _)
  | leave hi hserve =>
    have hnone := hthread hi
    simp only [hupdate]
    exact hnone
  | finish hi =>
    simp only [hupdate, hthread hi]
    exact (List.append_nil _).symm
  | spurious hi =>
    have hnone := hthread hi
    simp only [hupdate]
    exact hnone
  | notifyOne woken hpending hasleep =>
    have hjob : (if default ∈ woken then Thread.awake else s.threads default).job? =
        (s.threads default).job? := by
      by_cases hi : default ∈ woken
      · rw [if_pos hi, hasleep default hi]
        rfl
      · rw [if_neg hi]
    simp only [hjob]
    exact hs
  | notifyAll hpending =>
    have hjob : (s.threads default).wakeUp.job? = (s.threads default).job? := by
      cases s.threads default <;> rfl
    simp only [hjob]
    exact hs
  | _ => exact hs

/-! ## Wake-ups -/

/-- What the sections have to do with there being work, and with being closed. -/
structure Laws (prog : Program D A C E) (work closed : D → Prop) : Prop where
  wait : ∀ d, prog.serve d = .wait → ¬ work d ∧ ¬ closed d
  take : ∀ d job d', prog.serve d = .take job d' → work d ∧ (closed d' ↔ closed d)
  leave : ∀ d, prog.serve d = .leave → ¬ work d ∧ closed d
  post : ∀ c d d', prog.post c d = (d', .ok ()) → ¬ closed d ∧ ¬ closed d'
  refused : ∀ c d d' e, prog.post c d = (d', .error e) →
    (work d' ↔ work d) ∧ (closed d' ↔ closed d)
  close : ∀ d, closed (prog.close d) ∧ (work (prog.close d) ↔ work d)

/-- Somebody is up, or will be woken up, as long as there is something to do. -/
structure Alert (work closed : D → Prop) (s : State ι D A) : Prop where
  gone : ∀ i, s.threads i = .gone → ¬ work s.data ∧ closed s.data
  work : work s.data → 0 < s.notifyOne ∨ ∃ i, s.threads i ≠ .asleep
  closed : closed s.data → 0 < s.notifyAll ∨ ∀ i, s.threads i ≠ .asleep

omit [DecidableEq ι] in
theorem alert_start [Nonempty ι] {work closed : D → Prop} {data : D} (h : ¬ closed data) :
    Alert work closed (State.start ι A data) where
  gone := fun _ hi => by cases hi
  work := fun _ => Or.inr ⟨Classical.arbitrary ι, nofun⟩
  closed := fun hc => absurd hc h

/-- One thread changes, and does not fall asleep. -/
theorem ne_asleep_update {threads : ι → Thread A} {i : ι} (t : Thread A) (ht : t ≠ .asleep)
    (h : ∀ k, threads k ≠ .asleep) (k : ι) : Function.update threads i t k ≠ .asleep := by
  by_cases hk : k = i
  · rwa [hk, Function.update_self]
  · rw [Function.update_of_ne hk]
    exact h k

/-- A thread that has left after a change of one thread had left before, if it is another. -/
theorem gone_of_update {threads : ι → Thread A} {i k : ι} (t : Thread A) (ht : t ≠ .gone)
    (h : Function.update threads i t k = .gone) : threads k = .gone := by
  by_cases hk : k = i
  · rw [hk, Function.update_self] at h
    exact absurd h ht
  · rwa [Function.update_of_ne hk] at h

/-- Whoever is up is not asleep. -/
theorem exists_update {threads : ι → Thread A} (i : ι) (t : Thread A) (ht : t ≠ .asleep) :
    ∃ k, Function.update threads i t k ≠ .asleep :=
  ⟨i, by rwa [Function.update_self]⟩

theorem Step.alert [Nonempty ι] {work closed : D → Prop} (laws : Laws prog work closed)
    {s s' : State ι D A} (h : Alert work closed s) (hs : Step prog s s') :
    Alert work closed s' := by
  obtain ⟨hgone, hwork, hclosed⟩ := h
  cases hs with
  | wait hi hserve =>
    obtain ⟨hidle, hopen⟩ := laws.wait _ hserve
    exact ⟨fun k hk => hgone k (gone_of_update .asleep nofun hk), fun hw => absurd hw hidle,
      fun hc => absurd hc hopen⟩
  | @take i job data hi hserve =>
    obtain ⟨hbusy, hiff⟩ := laws.take _ _ _ hserve
    refine ⟨fun k hk => ?_, fun _ => Or.inr (exists_update i (.busy job) nofun), fun hc => ?_⟩
    · exact absurd hbusy (hgone k (gone_of_update (.busy job) nofun hk)).1
    · exact (hclosed (hiff.1 hc)).imp_right fun hup => ne_asleep_update (.busy job) nofun hup
  | @leave i hi hserve =>
    obtain ⟨hidle, hc⟩ := laws.leave _ hserve
    refine ⟨fun _ _ => ⟨hidle, hc⟩, fun hw => absurd hw hidle, fun _ => ?_⟩
    exact (hclosed hc).imp_right fun hup => ne_asleep_update .gone nofun hup
  | @finish i job hi =>
    refine ⟨fun k hk => hgone k (gone_of_update .awake nofun hk),
      fun _ => Or.inr (exists_update i .awake nofun), fun hc => ?_⟩
    exact (hclosed hc).imp_right fun hup => ne_asleep_update .awake nofun hup
  | @spurious i hi =>
    refine ⟨fun k hk => hgone k (gone_of_update .awake nofun hk),
      fun _ => Or.inr (exists_update i .awake nofun), fun hc => ?_⟩
    exact (hclosed hc).imp_right fun hup => ne_asleep_update .awake nofun hup
  | post hpost =>
    obtain ⟨hopen, hopen'⟩ := laws.post _ _ _ hpost
    exact ⟨fun k hk => absurd (hgone k hk).2 hopen, fun _ => Or.inl (Nat.succ_pos _),
      fun hc => absurd hc hopen'⟩
  | refused hpost =>
    obtain ⟨hw', hc'⟩ := laws.refused _ _ _ _ hpost
    exact ⟨fun k hk => (hgone k hk).imp (mt hw'.1) hc'.2, fun hw => hwork (hw'.1 hw),
      fun hc => hclosed (hc'.1 hc)⟩
  | notifyOne woken hpending hasleep hsome =>
    have hkeep : ∀ k (t : Thread A), t ≠ .awake →
        (if k ∈ woken then .awake else s.threads k) = t → s.threads k = t := by
      intro k t ht hk
      split_ifs at hk
      · exact absurd hk.symm ht
      · exact hk
    refine ⟨fun k hk => hgone k (hkeep k .gone nofun hk), fun hw => Or.inr ?_, fun hc => ?_⟩
    · -- one of the sleepers is woken, or there is none
      by_cases hsleep : ∃ k, s.threads k = .asleep
      · obtain ⟨k, hk⟩ := hsome hsleep
        refine ⟨k, ?_⟩
        show (if k ∈ woken then Thread.awake else s.threads k) ≠ .asleep
        rw [if_pos hk]
        exact nofun
      · exact ⟨Classical.arbitrary ι, fun hk => hsleep ⟨_, hkeep _ .asleep nofun hk⟩⟩
    · exact (hclosed hc).imp_right fun hup k hk => hup k (hkeep k .asleep nofun hk)
  | close =>
    obtain ⟨hc, hiff⟩ := laws.close s.data
    exact ⟨fun k hk => ⟨mt hiff.1 (hgone k hk).1, hc⟩, fun hw => hwork (hiff.1 hw),
      fun _ => Or.inl (Nat.succ_pos _)⟩
  | notifyAll hpending =>
    exact ⟨fun k hk => hgone k (Thread.eq_of_wakeUp .gone nofun hk),
      fun _ => Or.inr ⟨Classical.arbitrary ι, Thread.wakeUp_ne_asleep _⟩,
      fun _ => Or.inr fun k => Thread.wakeUp_ne_asleep _⟩

/-- **No wake-up is lost.** -/
theorem Reachable.alert [Nonempty ι] {work closed : D → Prop} (laws : Laws prog work closed)
    {data : D} {s : State ι D A} (h : Reachable prog (State.start ι A data) s)
    (hopen : ¬ closed data) : Alert work closed s :=
  h.invariant (alert_start hopen) fun _ _ => Step.alert laws

omit [DecidableEq ι] in
/-- With work and no notification to come, somebody is up. -/
theorem Alert.not_stuck {work closed : D → Prop} {s : State ι D A}
    (h : Alert work closed s) (hw : work s.data) (hone : s.notifyOne = 0) :
    ∃ i, s.threads i ≠ .gone ∧ s.threads i ≠ .asleep := by
  obtain ⟨i, hi⟩ := (h.work hw).resolve_left (by omega)
  exact ⟨i, fun hg => (h.gone i hg).1 hw, hi⟩

/-! ## Closing down -/

section Closing

variable (prog) in
/-- A step of a thread, or a notification; the other steps are those of the clients. -/
def Moves (s s' : State ι D A) : Prop :=
  Step prog s s' ∧ (s'.threads ≠ s.threads ∨
    s'.notifyOne + s'.notifyAll < s.notifyOne + s.notifyAll)

variable (prog) in
/-- A step that does not wait for anybody: of a thread that is up, or a notification. -/
def Due (s s' : State ι D A) : Prop :=
  Step prog s s' ∧ ((∃ i, s.threads i ≠ .asleep ∧ s'.threads i ≠ s.threads i) ∨
    s'.notifyOne + s'.notifyAll < s.notifyOne + s.notifyAll)

/-- How many steps a thread has before it at most, if it does not fall asleep any more. -/
def Thread.weight : Thread A → ℕ
  | .awake => 1
  | .asleep => 2
  | .busy _ => 2
  | .gone => 0

theorem Thread.weight_le (t : Thread A) : t.weight ≤ 2 := by
  cases t <;> simp [Thread.weight]

theorem Thread.weight_wakeUp_le (t : Thread A) : t.wakeUp.weight ≤ t.weight := by
  cases t with
  | asleep => exact Nat.le_succ 1
  | _ => exact le_rfl

variable [Fintype ι]

/-- How many steps are left at most when the monitor is closed; `size` counts the jobs that
are not taken yet. -/
def State.rank (size : D → ℕ) (s : State ι D A) : ℕ :=
  ∑ i, (s.threads i).weight + 2 * size s.data + s.notifyOne + s.notifyAll

/-- One thread changes. -/
theorem sum_weight_update (threads : ι → Thread A) (i : ι) (t : Thread A) :
    ∑ k, (Function.update threads i t k).weight + (threads i).weight =
      ∑ k, (threads k).weight + t.weight := by
  have hupdate : (fun k => (Function.update threads i t k).weight) =
      Function.update (fun k => (threads k).weight) i t.weight :=
    Function.comp_update Thread.weight threads i t
  rw [hupdate, Finset.sum_update_of_mem (Finset.mem_univ i),
    Finset.sum_eq_add_sum_sdiff_singleton_of_mem (Finset.mem_univ i)
      (fun k => (threads k).weight)]
  omega

variable {work closed : D → Prop} {size : D → ℕ}

/-- **Closing down comes nearer with every step.** -/
theorem Moves.rank_lt (laws : Laws prog work closed)
    (hsize : ∀ d job d', prog.serve d = .take job d' → size d' < size d)
    {s s' : State ι D A} (h : Moves prog s s') (hc : closed s.data) :
    s'.rank size < s.rank size ∧ closed s'.data := by
  obtain ⟨hs, hmoves⟩ := h
  unfold State.rank
  cases hs with
  | wait hi hserve => exact absurd hc (laws.wait _ hserve).2
  | @take i job data hi hserve =>
    have hsum := sum_weight_update s.threads i (.busy job)
    have hless := hsize _ _ _ hserve
    rw [hi] at hsum
    change _ + 1 = _ + 2 at hsum
    exact ⟨by simp only; omega, (laws.take _ _ _ hserve).2.2 hc⟩
  | @leave i hi hserve =>
    have hsum := sum_weight_update s.threads i .gone
    rw [hi] at hsum
    change _ + 1 = _ + 0 at hsum
    exact ⟨by simp only; omega, hc⟩
  | @finish i job hi =>
    have hsum := sum_weight_update s.threads i .awake
    rw [hi] at hsum
    change _ + 2 = _ + 1 at hsum
    exact ⟨by simp only; omega, hc⟩
  | @spurious i hi =>
    have hsum := sum_weight_update s.threads i .awake
    rw [hi] at hsum
    change _ + 2 = _ + 1 at hsum
    exact ⟨by simp only; omega, hc⟩
  | post hpost => exact absurd hc (laws.post _ _ _ hpost).1
  | refused hpost => exact absurd hmoves (by simp)
  | @notifyOne woken hpending hasleep hsome =>
    have hsum : ∑ i, (if i ∈ woken then Thread.awake else s.threads i).weight ≤
        ∑ i, (s.threads i).weight := by
      refine Finset.sum_le_sum fun i _ => ?_
      by_cases hi : i ∈ woken
      · rw [if_pos hi, hasleep i hi]
        exact Nat.le_succ 1
      · rw [if_neg hi]
    exact ⟨by simp only; omega, hc⟩
  | close => exact absurd hmoves (by simp)
  | notifyAll hpending =>
    have hsum : ∑ i, (s.threads i).wakeUp.weight ≤ ∑ i, (s.threads i).weight :=
      Finset.sum_le_sum fun i _ => (s.threads i).weight_wakeUp_le
    exact ⟨by simp only; omega, hc⟩

/-- Every way to close down is short. -/
theorem length_le_rank (laws : Laws prog work closed)
    (hsize : ∀ d job d', prog.serve d = .take job d' → size d' < size d)
    {s : State ι D A} (hc : closed s.data) {run : List (State ι D A)}
    (hrun : List.IsChain (Moves prog) (s :: run)) : run.length ≤ s.rank size := by
  induction run generalizing s with
  | nil => exact Nat.zero_le _
  | cons s' run ih =>
    obtain ⟨hmoves, hrun'⟩ := List.isChain_cons_cons.1 hrun
    obtain ⟨hlt, hc'⟩ := hmoves.rank_lt laws hsize hc
    exact (Nat.succ_le_succ (ih hc' hrun')).trans hlt

omit [DecidableEq ι] in
theorem State.rank_le (size : D → ℕ) (s : State ι D A) :
    s.rank size ≤ 2 * Fintype.card ι + 2 * size s.data + s.notifyOne + s.notifyAll := by
  have hsum : ∑ i, (s.threads i).weight ≤ ∑ _i : ι, 2 :=
    Finset.sum_le_sum fun i _ => (s.threads i).weight_le
  have hconst : ∑ _i : ι, 2 = Fintype.card ι * 2 := Finset.sum_const_nat fun _ _ => rfl
  unfold State.rank
  omega

omit [Fintype ι] in
/-- **Closing down does not get stuck** before everybody has left. -/
theorem Alert.exists_due (laws : Laws prog work closed) {s : State ι D A}
    (h : Alert work closed s) (hc : closed s.data) :
    (∃ s', Due prog s s') ∨ ∀ i, s.threads i = .gone := by
  rcases h.closed hc with hpending | hup
  · exact Or.inl ⟨_, .notifyAll hpending, Or.inr (by simp only; omega)⟩
  · by_cases hall : ∀ i, s.threads i = .gone
    · exact Or.inr hall
    · obtain ⟨i, hi⟩ := not_forall.1 hall
      have hdue : ∀ {s' : State ι D A}, Step prog s s' → s'.threads i ≠ s.threads i →
          ∃ s', Due prog s s' := fun hs hne => ⟨_, hs, Or.inl ⟨i, hup i, hne⟩⟩
      left
      cases hthread : s.threads i with
      | awake =>
        cases hserve : prog.serve s.data with
        | wait => exact absurd hc (laws.wait _ hserve).2
        | take job data =>
          refine hdue (.take hthread hserve) ?_
          simp [hthread]
        | leave =>
          refine hdue (.leave hthread hserve) ?_
          simp [hthread]
      | asleep => exact absurd hthread (hup i)
      | busy job =>
        refine hdue (.finish hthread) ?_
        simp [hthread]
      | gone => exact absurd hthread hi

end Closing

end Monitor
