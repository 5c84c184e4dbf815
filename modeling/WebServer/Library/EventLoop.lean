import Mathlib

/-!
# Event loops that take their events in batches

The general shape of a reactor: whenever its queue is empty it is given a whole
batch of events, and then it handles the events of the batch one after the other,
until a handler fails in a way the loop does not survive.

A batch describes the state in which it was fetched.  When its later events are
handled, the earlier ones have already changed that state, so an invariant of the
loop has to say something about the rest of the batch as well.  The rule
`Reachable.invariant` packages that argument: an event is *live* as long as it
still describes the state, and handling one event keeps alive every event
*independent* of it.

* `System` — the handler, which batches may be delivered in a state, and which
  answers the environment may give to an event.
* `Config`, `Step`, `Reachable` — the loop with its pending events, under a
  `guard` that restricts the runs considered.
* `Reachable.invariant` — the invariant rule.
* `Trace` — the runs with the events they have handled, and `Trace.invariant`, for what
  has to be said about the past.
* `observed` — what is observed of the events of a run.
* `run` — the loop on a given list of events.
-/

namespace EventLoop

/-- A reactor over states `σ`, events `ε` and failures `φ`. -/
structure System (σ ε φ : Type*) where
  /-- What handling one event does to the state, and how it ends. -/
  handle : σ → ε → σ × Except φ Unit
  /-- The batches that may be delivered in a state. -/
  deliverable : σ → List ε → Prop
  /-- What the environment promises about an event when it is handled. -/
  admissible : σ → ε → Prop

/-- The loop between two events. -/
structure Config (σ ε φ : Type*) where
  state : σ
  /-- The events of the current batch that are not handled yet. -/
  pending : List ε
  /-- The failure that ended the loop. -/
  stopped : Option φ

/-- The failure in a result. -/
def failure {φ : Type*} : Except φ Unit → Option φ
  | .ok () => none
  | .error f => some f

@[simp] theorem failure_ok {φ : Type*} (u : Unit) : failure (.ok u : Except φ Unit) = none := rfl

@[simp] theorem failure_error {φ : Type*} (f : φ) :
    failure (.error f : Except φ Unit) = some f := rfl

theorem failure_eq_none {φ : Type*} {r : Except φ Unit} : failure r = none ↔ r = .ok () := by
  cases r <;> simp [failure]

variable {σ ε φ : Type*} (sys : System σ ε φ)

/-- The loop after it has handled `e`, with `rest` still to do. -/
def process (s : σ) (e : ε) (rest : List ε) : Config σ ε φ :=
  ⟨(sys.handle s e).1, rest, failure (sys.handle s e).2⟩

/-- One step of the loop: it fetches a batch, or it handles the next event. -/
inductive Step (guard : σ → ε → Prop) : Config σ ε φ → Config σ ε φ → Prop
  | fetch {s : σ} {batch : List ε} : sys.deliverable s batch →
      Step guard ⟨s, [], none⟩ ⟨s, batch, none⟩
  | handle {s : σ} {e : ε} {rest : List ε} : sys.admissible s e → guard s e →
      Step guard ⟨s, e :: rest, none⟩ (process sys s e rest)

/-- What the loop can become when it starts in `s₀`. -/
def Reachable (guard : σ → ε → Prop) (s₀ : σ) (c : Config σ ε φ) : Prop :=
  Relation.ReflTransGen (Step sys guard) ⟨s₀, [], none⟩ c

variable {sys}

/-- **The invariant rule.**  `I` is the invariant, told whether the loop has
stopped; `live s e` says that the event `e` still describes the state `s`. -/
theorem Reachable.invariant {guard : σ → ε → Prop} {I : Option φ → σ → Prop}
    {live : σ → ε → Prop} {indep : ε → ε → Prop} {s₀ : σ} {c : Config σ ε φ}
    (h : Reachable sys guard s₀ c) (hinit : I none s₀)
    (hfetch : ∀ s batch, I none s → sys.deliverable s batch →
      (∀ e ∈ batch, live s e) ∧ batch.Pairwise indep)
    (hhandle : ∀ s e, I none s → live s e → sys.admissible s e → guard s e →
      I (failure (sys.handle s e).2) (sys.handle s e).1 ∧
        ∀ e', indep e e' → live s e' → failure (sys.handle s e).2 = none →
          live (sys.handle s e).1 e') :
    I c.stopped c.state ∧
      (c.stopped = none → (∀ e ∈ c.pending, live c.state e) ∧ c.pending.Pairwise indep) := by
  induction h with
  | refl => exact ⟨hinit, fun _ => ⟨fun e he => absurd he List.not_mem_nil, List.Pairwise.nil⟩⟩
  | tail _ hst ih =>
    cases hst with
    | fetch hd => exact ⟨ih.1, fun _ => hfetch _ _ ih.1 hd⟩
    | handle ha hg =>
      obtain ⟨hlive, hind⟩ := ih.2 rfl
      obtain ⟨hI, hkeep⟩ := hhandle _ _ ih.1 (hlive _ (List.mem_cons_self ..)) ha hg
      rw [List.pairwise_cons] at hind
      refine ⟨hI, fun hnone => ⟨fun e' he' => ?_, hind.2⟩⟩
      exact hkeep e' (hind.1 e' he') (hlive e' (List.mem_cons_of_mem _ he')) hnone

/-! ## Runs with their past -/

/-- The loop has handled the events of the list, in this order, in whatever batches. -/
inductive Trace (sys : System σ ε φ) (guard : σ → ε → Prop) (s₀ : σ) :
    List ε → Config σ ε φ → Prop
  | start : Trace sys guard s₀ [] ⟨s₀, [], none⟩
  | fetch {es : List ε} {s : σ} {batch : List ε} : Trace sys guard s₀ es ⟨s, [], none⟩ →
      sys.deliverable s batch → Trace sys guard s₀ es ⟨s, batch, none⟩
  | handle {es : List ε} {s : σ} {e : ε} {rest : List ε} :
      Trace sys guard s₀ es ⟨s, e :: rest, none⟩ → sys.admissible s e → guard s e →
      Trace sys guard s₀ (es ++ [e]) (process sys s e rest)

theorem Trace.reachable {guard : σ → ε → Prop} {s₀ : σ} {es : List ε} {c : Config σ ε φ}
    (h : Trace sys guard s₀ es c) : Reachable sys guard s₀ c := by
  induction h with
  | start => exact Relation.ReflTransGen.refl
  | fetch _ hd ih => exact ih.tail (.fetch hd)
  | handle _ ha hg ih => exact ih.tail (.handle ha hg)

/-- The next event is handled, and the loop goes on. -/
theorem Trace.next {guard : σ → ε → Prop} {s₀ : σ} {es : List ε} {s : σ} {e : ε} {rest : List ε}
    (h : Trace sys guard s₀ es ⟨s, e :: rest, none⟩) (ha : sys.admissible s e) (hg : guard s e)
    (hok : (sys.handle s e).2 = .ok ()) :
    Trace sys guard s₀ (es ++ [e]) ⟨(sys.handle s e).1, rest, none⟩ := by
  have hstep := h.handle ha hg
  rwa [process, hok] at hstep

/-- **The invariant rule for traces.** -/
theorem Trace.invariant {guard : σ → ε → Prop} {s₀ : σ} {es : List ε} {c : Config σ ε φ}
    {I : List ε → Option φ → σ → Prop} (h : Trace sys guard s₀ es c) (hinit : I [] none s₀)
    (hhandle : ∀ es s e rest, Trace sys guard s₀ es ⟨s, e :: rest, none⟩ → I es none s →
      sys.admissible s e → guard s e →
      I (es ++ [e]) (failure (sys.handle s e).2) (sys.handle s e).1) :
    I es c.stopped c.state := by
  induction h with
  | start => exact hinit
  | fetch _ _ ih => exact ih
  | handle htrace ha hg ih => exact hhandle _ _ _ _ htrace ih ha hg

/-! ## What is observed on the way -/

section Observed

variable {ω : Type*}

variable (sys) in
/-- The observations of the events of a list, each in the state in which it is handled. -/
def observed (obs : σ → ε → List ω) : σ → List ε → List ω
  | _, [] => []
  | s, e :: es => obs s e ++ observed obs (sys.handle s e).1 es

theorem observed_append (obs : σ → ε → List ω) (s : σ) (es es' : List ε) :
    observed sys obs s (es ++ es') = observed sys obs s es ++
      observed sys obs (es.foldl (fun s e => (sys.handle s e).1) s) es' := by
  induction es generalizing s with
  | nil => rfl
  | cons e es ih => rw [List.cons_append, observed, ih, observed, List.append_assoc]; rfl

theorem Trace.state_eq {guard : σ → ε → Prop} {s₀ : σ} {es : List ε} {c : Config σ ε φ}
    (h : Trace sys guard s₀ es c) : c.state = es.foldl (fun s e => (sys.handle s e).1) s₀ := by
  induction h with
  | start => rfl
  | fetch _ _ ih => exact ih
  | handle _ _ _ ih =>
    rw [List.foldl_append, ← ih]
    rfl

/-- The last event of a run is observed in the state that it is handled in. -/
theorem Trace.observed_concat {guard : σ → ε → Prop} {s₀ : σ} {es : List ε} {c : Config σ ε φ}
    (h : Trace sys guard s₀ es c) (obs : σ → ε → List ω) (e : ε) :
    observed sys obs s₀ (es ++ [e]) = observed sys obs s₀ es ++ obs c.state e := by
  rw [observed_append, ← h.state_eq, observed, observed, List.append_nil]

end Observed

/-! ## Runs over a given list of events -/

variable (sys)

/-- Handle a list of events, up to the first failure. -/
def run (s : σ) : List ε → σ × Except φ Unit
  | [] => (s, .ok ())
  | e :: rest =>
    match sys.handle s e with
    | (s, .error f) => (s, .error f)
    | (s, .ok ()) => run s rest

variable {sys}

theorem run_cons_of_ok {s : σ} {e : ε} {rest : List ε} (h : (sys.handle s e).2 = .ok ()) :
    run sys s (e :: rest) = run sys (sys.handle s e).1 rest := by
  rw [run]
  rcases hh : sys.handle s e with ⟨s', f | u⟩
  · rw [hh] at h
    cases h
  · rfl

theorem run_cons_of_error {s : σ} {e : ε} {rest : List ε} {f : φ}
    (h : (sys.handle s e).2 = .error f) : run sys s (e :: rest) = sys.handle s e := by
  rw [run]
  rcases hh : sys.handle s e with ⟨s', f | u⟩
  · rfl
  · rw [hh] at h
    cases h

@[simp] theorem run_singleton (s : σ) (e : ε) : run sys s [e] = sys.handle s e := by
  rw [run]
  rcases sys.handle s e with ⟨s', f | u⟩ <;> rfl

end EventLoop
