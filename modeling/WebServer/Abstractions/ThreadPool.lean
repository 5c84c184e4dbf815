import WebServer.Library.Monitor
import WebServer.Runtime.Fault

/-!
# The thread pool

`ThreadPool` as a program around a monitor.  The lambda that the constructor starts on
each worker, `enqueue` and the destructor have one critical section each, and the
notification that follows the section of `enqueue` or of the destructor is a step of its
own.  A task is a `packaged_task`, which keeps what it throws, so that to run it always
returns to the loop of the worker.

* `runs_each_task_once` — accepted tasks are taken in order, each of them once.
* `no_lost_wakeup` — nobody sleeps on a task, or on the end of the pool.
* `join_returns` — the destructor comes to its end.
-/

namespace WebServer

namespace ThreadPool

open Monitor (Turn Thread Program Laws Alert)

/-- What `queue_mutex` guards. -/
structure Shared (T : Type*) where
  tasks : List T
  stop : Bool
  /-- Ghost: the tasks whose `enqueue` did not throw, in order. -/
  accepted : List T

variable {T : Type*}

/-- What the constructor leaves. -/
def Shared.new : Shared T := ⟨[], false, []⟩

/-- The locked part of a worker's loop.  The predicate of `wait` holds with `stop` set or a
task queued, and the worker returns with `stop` set and no task queued. -/
def worker (d : Shared T) : Turn (Shared T) T :=
  match d.tasks with
  | [] => if d.stop then .leave else .wait
  | task :: tasks => .take task { d with tasks }

/-- The locked part of `enqueue`. -/
def enqueue (task : T) (d : Shared T) : Shared T × Except CppException Unit :=
  if d.stop then (d, .error (.runtimeError (bytes "enqueue on stopped ThreadPool")))
  else ({ d with tasks := d.tasks ++ [task], accepted := d.accepted ++ [task] }, .ok ())

/-- The locked part of the destructor. -/
def destructor (d : Shared T) : Shared T := { d with stop := true }

/-- The critical sections. -/
def sections (T : Type*) : Program (Shared T) T T CppException := ⟨worker, enqueue, destructor⟩

/-- A pool of `threads` workers and its clients. -/
abbrev State (threads : ℕ) (T : Type*) := Monitor.State (Fin threads) (Shared T) T

/-- The pool that `ThreadPool(threads)` makes. -/
def new (threads : ℕ) (T : Type*) : State threads T := .start (Fin threads) T .new

/-- What a pool can become. -/
def Reachable {threads : ℕ} (s : State threads T) : Prop :=
  Monitor.Reachable (sections T) (new threads T) s

/-! ## Specifications of the sections -/

/-- **What a worker does** with the lock. -/
theorem worker_cases (d : Shared T) :
    (d.tasks = [] ∧ d.stop = false ∧ worker d = .wait) ∨
      (d.tasks = [] ∧ d.stop = true ∧ worker d = .leave) ∨
      ∃ task tasks, d.tasks = task :: tasks ∧ worker d = .take task { d with tasks } := by
  unfold worker
  cases htasks : d.tasks with
  | nil =>
    cases hstop : d.stop with
    | false => exact Or.inl ⟨rfl, rfl, rfl⟩
    | true => exact Or.inr (Or.inl ⟨rfl, rfl, rfl⟩)
  | cons task tasks => exact Or.inr (Or.inr ⟨task, tasks, rfl, rfl⟩)

theorem worker_eq_take {d d' : Shared T} {task : T} (h : worker d = .take task d') :
    d.tasks = task :: d'.tasks ∧ d'.stop = d.stop ∧ d'.accepted = d.accepted := by
  obtain ⟨-, -, hw⟩ | ⟨-, -, hw⟩ | ⟨first, tasks, htasks, hw⟩ := worker_cases d
  · cases hw.symm.trans h
  · cases hw.symm.trans h
  · cases hw.symm.trans h
    exact ⟨htasks, rfl, rfl⟩

theorem enqueue_of_stop {d : Shared T} (h : d.stop = true) (task : T) :
    enqueue task d = (d, .error (.runtimeError (bytes "enqueue on stopped ThreadPool"))) := by
  rw [enqueue, if_pos h]

theorem enqueue_of_not_stop {d : Shared T} (h : d.stop = false) (task : T) :
    enqueue task d = (⟨d.tasks ++ [task], d.stop, d.accepted ++ [task]⟩, .ok ()) := by
  rw [enqueue, if_neg (by simp [h])]

theorem enqueue_eq_ok {d d' : Shared T} {task : T} (h : enqueue task d = (d', .ok ())) :
    d.stop = false ∧ d' = ⟨d.tasks ++ [task], d.stop, d.accepted ++ [task]⟩ := by
  cases hstop : d.stop with
  | true => cases (enqueue_of_stop hstop task).symm.trans h
  | false =>
    cases (enqueue_of_not_stop hstop task).symm.trans h
    exact ⟨rfl, by rw [hstop]⟩

theorem enqueue_eq_error {d d' : Shared T} {task : T} {ex : CppException}
    (h : enqueue task d = (d', .error ex)) : d' = d := by
  cases hstop : d.stop with
  | true =>
    cases (enqueue_of_stop hstop task).symm.trans h
    rfl
  | false => cases (enqueue_of_not_stop hstop task).symm.trans h

/-- The sections keep the laws of a monitor. -/
theorem laws : Laws (sections T) (fun d => d.tasks ≠ []) (fun d => d.stop = true) where
  wait d h := by
    obtain ⟨htasks, hstop, -⟩ | ⟨-, -, hw⟩ | ⟨task, tasks, -, hw⟩ := worker_cases d
    · exact ⟨not_not_intro htasks, by simp [hstop]⟩
    · cases hw.symm.trans h
    · cases hw.symm.trans h
  take d task d' h := by
    obtain ⟨htasks, hstop, -⟩ := worker_eq_take h
    exact ⟨by simp [htasks], by rw [hstop]⟩
  leave d h := by
    obtain ⟨-, -, hw⟩ | ⟨htasks, hstop, -⟩ | ⟨task, tasks, -, hw⟩ := worker_cases d
    · cases hw.symm.trans h
    · exact ⟨not_not_intro htasks, hstop⟩
    · cases hw.symm.trans h
  post task d d' h := by
    obtain ⟨hstop, rfl⟩ := enqueue_eq_ok h
    exact ⟨by simp [hstop], by simp [hstop]⟩
  refused task d d' ex h := by
    rw [enqueue_eq_error h]
    exact ⟨Iff.rfl, Iff.rfl⟩
  close d := ⟨rfl, Iff.rfl⟩

/-! ## First come, first served -/

/-- Tasks leave the queue in the order in which they were accepted. -/
def InOrder {threads : ℕ} (s : State threads T) : Prop :=
  s.data.accepted = s.taken ++ s.data.tasks

theorem Step.inOrder {threads : ℕ} {s s' : State threads T} (h : InOrder s)
    (hs : Monitor.Step (sections T) s s') : InOrder s' := by
  rw [InOrder] at h ⊢
  cases hs with
  | take hi hserve =>
    obtain ⟨htasks, -, haccepted⟩ := worker_eq_take hserve
    simp [haccepted, h, htasks]
  | post hpost =>
    obtain ⟨-, rfl⟩ := enqueue_eq_ok hpost
    simp [h]
  | refused hpost =>
    rw [enqueue_eq_error hpost]
    exact h
  | _ => exact h

theorem Reachable.inOrder {threads : ℕ} {s : State threads T} (h : Reachable s) : InOrder s :=
  Monitor.Reachable.invariant h rfl fun _ _ => Step.inOrder

theorem Reachable.alert {threads : ℕ} (hthreads : 0 < threads) {s : State threads T}
    (h : Reachable s) : Alert (fun d : Shared T => d.tasks ≠ []) (fun d => d.stop = true) s :=
  have : Nonempty (Fin threads) := ⟨⟨0, hthreads⟩⟩
  Monitor.Reachable.alert laws h (by simp [Shared.new])

/-- **One worker runs the tasks one after another**, as they were accepted: those it has
completed, the one it runs, and those that are queued. -/
theorem one_after_another {s : State 1 T} (h : Reachable s) :
    s.data.accepted = s.finished ++ ((s.threads 0).job?.toList ++ s.data.tasks) := by
  have hinOrder : s.data.accepted = s.taken ++ s.data.tasks := h.inOrder
  have hinTurn := Monitor.Reachable.inTurn h
  rw [hinOrder, hinTurn, List.append_assoc]
  rfl

/-- The second task is queued while the first runs. -/
theorem one_after_another_two : ∃ s : State 1 ℕ, s.threads 0 = .busy 7 ∧
    s.data.accepted = s.finished ++ ((s.threads 0).job?.toList ++ s.data.tasks) := by
  have hfirst : @Reachable ℕ 1 _ :=
    Relation.ReflTransGen.single (Monitor.Step.post (c := 7) rfl)
  have htake : Reachable _ := hfirst.tail (Monitor.Step.take (i := 0) rfl rfl)
  have hsecond : Reachable _ := htake.tail (Monitor.Step.post (c := 8) rfl)
  have hbusy : Function.update (new 1 ℕ).threads 0 (.busy 7) 0 = .busy 7 :=
    Function.update_self ..
  exact ⟨_, hbusy, one_after_another hsecond⟩

/-! ## Every accepted task runs once -/

/-- One worker takes a task, completes it, and returns once the destructor has run. -/
theorem reachable_drained (task : ℕ) : ∃ s : State 1 ℕ, Reachable s ∧
    s.data.accepted = [task] ∧ ∀ i, s.threads i = .gone := by
  have henqueue : @Reachable ℕ 1 _ :=
    Relation.ReflTransGen.single (Monitor.Step.post (c := task) rfl)
  have htake : Reachable _ := henqueue.tail (Monitor.Step.take (i := 0) rfl rfl)
  have hfinish : Reachable _ := htake.tail (Monitor.Step.finish (i := 0) rfl)
  have hdestructor : Reachable _ := hfinish.tail Monitor.Step.close
  have hleave : Reachable _ :=
    hdestructor.tail (Monitor.Step.leave (i := 0) rfl rfl)
  refine ⟨_, hleave, rfl, fun i => ?_⟩
  rw [Subsingleton.elim i 0]
  rfl

section Places

variable [DecidableEq T] {threads : ℕ} {s : State threads T}

/-- Where a task can be. -/
inductive Place (threads : ℕ)
  | queued
  | running (i : Fin threads)
  | completed

/-- Is the task there? -/
def Holds (s : State threads T) (task : T) : Place threads → Prop
  | .queued => task ∈ s.data.tasks
  | .running i => s.threads i = .busy task
  | .completed => task ∈ s.finished

/-- As often as a task was accepted it is queued, run by a worker or completed. -/
theorem Reachable.count_accepted (h : Reachable s) (task : T) :
    s.data.accepted.count task =
      s.data.tasks.count task + (s.workers task).card + s.finished.count task := by
  have htaken := Monitor.Reachable.balanced h task
  have horder := congrArg (List.count task) h.inOrder
  rw [List.count_append] at horder
  omega

theorem mem_workers {task : T} {i : Fin threads} :
    i ∈ s.workers task ↔ s.threads i = .busy task := by
  simp [Monitor.State.workers]

/-- A task that was accepted once is in one place. -/
theorem Reachable.existsUnique_place (h : Reachable s) {task : T}
    (hone : s.data.accepted.count task = 1) : ∃! place, Holds s task place := by
  have hcount := h.count_accepted task
  have hqueued : task ∈ s.data.tasks → 0 < s.data.tasks.count task := List.count_pos_iff.2
  have hcompleted : task ∈ s.finished → 0 < s.finished.count task := List.count_pos_iff.2
  have hrunning : ∀ i, s.threads i = .busy task → 0 < (s.workers task).card :=
    fun i hi => Finset.card_pos.2 ⟨i, mem_workers.2 hi⟩
  have hcases : 0 < s.data.tasks.count task ∨ 0 < s.finished.count task ∨
      (s.workers task).card = 1 := by omega
  obtain hpos | hpos | hcard := hcases
  · refine ⟨.queued, List.count_pos_iff.1 hpos, fun place hplace => ?_⟩
    cases place with
    | queued => rfl
    | running i => have := hrunning i hplace; omega
    | completed => have := hcompleted hplace; omega
  · refine ⟨.completed, List.count_pos_iff.1 hpos, fun place hplace => ?_⟩
    cases place with
    | queued => have := hqueued hplace; omega
    | running i => have := hrunning i hplace; omega
    | completed => rfl
  · obtain ⟨i, hi⟩ := Finset.card_eq_one.1 hcard
    refine ⟨.running i, mem_workers.1 (by simp [hi]), fun place hplace => ?_⟩
    cases place with
    | queued => have := hqueued hplace; omega
    | running k =>
      have hk := mem_workers.2 hplace
      rw [hi, Finset.mem_singleton] at hk
      rw [hk]
    | completed => have := hcompleted hplace; omega

/-- When every worker has returned, no task is left. -/
theorem Reachable.completed (hthreads : 0 < threads) (h : Reachable s)
    (hgone : ∀ i, s.threads i = .gone) :
    s.data.tasks = [] ∧ s.finished.Perm s.data.accepted := by
  have htasks := not_not.1 ((h.alert hthreads).gone ⟨0, hthreads⟩ (hgone _)).1
  refine ⟨htasks, List.perm_iff_count.2 fun task => ?_⟩
  have hworkers : (s.workers task).card = 0 := by
    refine Finset.card_eq_zero.2 (Finset.eq_empty_of_forall_notMem fun i hi => ?_)
    rw [mem_workers, hgone i] at hi
    cases hi
  rw [h.count_accepted task, htasks, hworkers]
  simp

/-- **Every accepted task runs exactly once.** -/
theorem runs_each_task_once (hthreads : 0 < threads) (h : Reachable s) :
    (∀ task, s.data.accepted.count task =
        s.data.tasks.count task + (s.workers task).card + s.finished.count task) ∧
      (∀ task, s.data.accepted.count task = 1 → ∃! place, Holds s task place) ∧
      s.data.accepted = s.taken ++ s.data.tasks ∧
      (s.data.stop = true → ∀ task, enqueue task s.data =
        (s.data, .error (.runtimeError (bytes "enqueue on stopped ThreadPool")))) ∧
      ((∀ i, s.threads i = .gone) →
        s.data.tasks = [] ∧ s.finished.Perm s.data.accepted) :=
  ⟨h.count_accepted, fun _ => h.existsUnique_place, h.inOrder, fun hstop => enqueue_of_stop hstop,
    h.completed hthreads⟩

/-- One task through a pool of one worker. -/
theorem runs_one_task : ∃ s : State 1 ℕ, Reachable s ∧ (∀ i, s.threads i = .gone) ∧
    (∃! place, Holds s 7 place) ∧ s.finished.Perm [7] := by
  obtain ⟨s, hreachable, haccepted, hgone⟩ := reachable_drained 7
  obtain ⟨-, hplace, -, -, hend⟩ := runs_each_task_once Nat.zero_lt_one hreachable
  exact ⟨s, hreachable, hgone, hplace 7 (by rw [haccepted]; rfl), haccepted ▸ (hend hgone).2⟩

end Places

/-! ## No lost wake-up -/

/-- **No wake-up is lost.** -/
theorem no_lost_wakeup {threads : ℕ} (hthreads : 0 < threads) {s : State threads T}
    (h : Reachable s) :
    ¬ (s.data.tasks ≠ [] ∧ (∀ i, s.threads i ≠ .gone → s.threads i = .asleep) ∧
        s.notifyOne = 0 ∧ s.notifyAll = 0) ∧
      ¬ (s.data.stop = true ∧ (∃ i, s.threads i = .asleep) ∧ s.notifyAll = 0) := by
  have halert := h.alert hthreads
  constructor
  · rintro ⟨htasks, hasleep, hone, -⟩
    obtain ⟨i, hgone, hup⟩ := halert.not_stuck htasks hone
    exact hup (hasleep i hgone)
  · rintro ⟨hstop, ⟨i, hi⟩, hall⟩
    obtain hpending | hup := halert.closed hstop
    · omega
    · exact hup i hi

/-- A task is queued while the one worker sleeps. -/
theorem no_lost_wakeup_asleep : ∃ s : State 1 ℕ, s.data.tasks = [7] ∧
    (∀ i, s.threads i = .asleep) ∧ ¬ (s.notifyOne = 0 ∧ s.notifyAll = 0) := by
  have hwait : @Reachable ℕ 1 _ :=
    Relation.ReflTransGen.single (Monitor.Step.wait (i := 0) rfl rfl)
  have henqueue : Reachable _ := hwait.tail (Monitor.Step.post (c := 7) rfl)
  have hasleep : ∀ i : Fin 1, Function.update (new 1 ℕ).threads 0 .asleep i = .asleep := by
    intro i
    rw [Subsingleton.elim i 0, Function.update_self]
  exact ⟨_, rfl, hasleep, fun hnone => (no_lost_wakeup Nat.zero_lt_one henqueue).1
    ⟨nofun, fun i _ => hasleep i, hnone.1, hnone.2⟩⟩

/-! ## The end of the pool -/

/-- A step after the destructor has set `stop` accepts nothing. -/
theorem Step.stopped {threads : ℕ} {s s' : State threads T} (hs : Monitor.Step (sections T) s s')
    (hstop : s.data.stop = true) :
    s'.data.stop = true ∧ s'.data.accepted = s.data.accepted := by
  cases hs with
  | take hi hserve =>
    obtain ⟨-, hstop', haccepted⟩ := worker_eq_take hserve
    exact ⟨hstop'.trans hstop, haccepted⟩
  | post hpost => exact absurd hstop (by simp [(enqueue_eq_ok hpost).1])
  | refused hpost =>
    rw [enqueue_eq_error hpost]
    exact ⟨hstop, rfl⟩
  | close => exact ⟨rfl, rfl⟩
  | _ => exact ⟨hstop, rfl⟩

/-- **The destructor returns.**  From the moment `stop` is set, the workers and the
notifications come to an end within a bounded number of steps, spurious wake-ups included;
unless every worker has returned, one of them, or a notification, can go on; and when they
have returned, every accepted task has run. -/
theorem join_returns [DecidableEq T] {threads : ℕ} (hthreads : 0 < threads)
    {s : State threads T} (h : Reachable s) (hstop : s.data.stop = true) :
    (∀ run, List.IsChain (Monitor.Moves (sections T)) (s :: run) →
      run.length ≤ 2 * threads + 2 * s.data.tasks.length + s.notifyOne + s.notifyAll) ∧
    ∀ s', Relation.ReflTransGen (Monitor.Moves (sections T)) s s' →
      (∃ s'', Monitor.Due (sections T) s' s'') ∨
        ((∀ i, s'.threads i = .gone) ∧ s'.data.tasks = [] ∧
          s'.finished.Perm s.data.accepted) := by
  have hsize : ∀ (d : Shared T) task d', (sections T).serve d = .take task d' →
      d'.tasks.length < d.tasks.length := by
    intro d task d' hserve
    rw [(worker_eq_take hserve).1]
    exact Nat.lt_succ_self _
  constructor
  · intro run hrun
    have hrank := Monitor.length_le_rank laws hsize hstop hrun
    have hbound := s.rank_le fun d => d.tasks.length
    rw [Fintype.card_fin] at hbound
    exact hrank.trans hbound
  · intro s' hs'
    have hkeep : Reachable s' ∧ s'.data.stop = true ∧ s'.data.accepted = s.data.accepted := by
      induction hs' with
      | refl => exact ⟨h, hstop, rfl⟩
      | tail _ hmoves ih =>
        obtain ⟨hreach, hstop', haccepted⟩ := ih
        obtain ⟨hnext, haccepted'⟩ := Step.stopped hmoves.1 hstop'
        exact ⟨hreach.tail hmoves.1, hnext, haccepted'.trans haccepted⟩
    obtain ⟨hreach, hstop', haccepted⟩ := hkeep
    refine ((hreach.alert hthreads).exists_due laws hstop').imp_right fun hgone => ?_
    obtain ⟨htasks, hperm⟩ := hreach.completed hthreads hgone
    exact ⟨hgone, htasks, haccepted ▸ hperm⟩

/-- The destructor runs while the one worker sleeps on an empty queue. -/
theorem join_returns_asleep : ∃ s : State 1 ℕ, s.threads 0 = .asleep ∧ s.data.stop = true ∧
    (∀ run, List.IsChain (Monitor.Moves (sections ℕ)) (s :: run) → run.length ≤ 3) ∧
    ∃ s', Monitor.Due (sections ℕ) s s' := by
  have hwait : @Reachable ℕ 1 _ :=
    Relation.ReflTransGen.single (Monitor.Step.wait (i := 0) rfl rfl)
  have hdestructor : Reachable _ := hwait.tail Monitor.Step.close
  have hasleep : Function.update (new 1 ℕ).threads 0 .asleep 0 = .asleep :=
    Function.update_self ..
  obtain ⟨hbound, hdue⟩ := join_returns Nat.zero_lt_one hdestructor rfl
  refine ⟨_, hasleep, rfl, hbound, (hdue _ .refl).resolve_right fun hend => ?_⟩
  cases hasleep.symm.trans (hend.1 0)

end ThreadPool

end WebServer
