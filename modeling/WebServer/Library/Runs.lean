import Mathlib.Data.List.Basic
import Mathlib.Tactic.Common

/-!
# Runs of a partial step

A machine whose `step` says for each event what becomes of a state, or that the event can not
happen in it.

* `run`, `Run` — the state after a list of events, and the lists that can happen.
* `Along` — what is true in every state of a run.
* `Allowed` — every event of a run meets a condition in the state in which it happens.
* `along_iff_allowed` — the rule for a condition that is exact: keeping to it keeps an invariant,
  and the first event that does not leaves a state that is bad.
-/

namespace Runs

variable {S E : Type*}

/-- The state after some events. -/
def run (step : S → E → Option S) : S → List E → Option S
  | s, [] => some s
  | s, e :: es => (step s e).bind fun s' => run step s' es

/-- The events that can happen, one after the other, from a state on. -/
structure Run (step : S → E → Option S) (start : S) where
  events : List E
  possible : (run step start events).isSome = true

/-- In all states of the run, the first and the last among them. -/
def Along (step : S → E → Option S) (P : S → Prop) (s : S) (es : List E) : Prop :=
  ∀ pre s', pre <+: es → run step s pre = some s' → P s'

/-- Every event happens in a state that meets the condition for it. -/
def Allowed (step : S → E → Option S) (ok : S → E → Prop) (s : S) (es : List E) : Prop :=
  ∀ pre e s', pre ++ [e] <+: es → run step s pre = some s' → ok s' e

variable {step : S → E → Option S} {P I : S → Prop} {ok : S → E → Prop}

theorem run_cons {s s' : S} {e : E} (h : step s e = some s') (es : List E) :
    run step s (e :: es) = run step s' es := by
  rw [run, h, Option.bind_some]

theorem exists_step {s : S} {e : E} {es : List E}
    (h : (run step s (e :: es)).isSome = true) : ∃ s', step s e = some s' := by
  rw [run] at h
  cases hstep : step s e with
  | none =>
    rw [hstep] at h
    cases h
  | some s' => exact ⟨s', rfl⟩

theorem along_nil {s : S} : Along step P s [] ↔ P s := by
  constructor
  · intro h
    exact h [] s List.prefix_rfl rfl
  · intro h pre s' hpre hrun
    rw [List.prefix_nil.1 hpre] at hrun
    exact Option.some.inj hrun ▸ h

theorem along_cons {s s' : S} {e : E} (hstep : step s e = some s') (es : List E) :
    Along step P s (e :: es) ↔ P s ∧ Along step P s' es := by
  constructor
  · intro h
    refine ⟨h [] s List.nil_prefix rfl, fun pre t hpre hrun => ?_⟩
    exact h (e :: pre) t (List.cons_prefix_cons.2 ⟨rfl, hpre⟩) ((run_cons hstep pre).trans hrun)
  · rintro ⟨hs, hrest⟩ pre t hpre hrun
    cases pre with
    | nil => exact Option.some.inj hrun ▸ hs
    | cons a pre =>
      obtain ⟨rfl, hpre'⟩ := List.cons_prefix_cons.1 hpre
      rw [run_cons hstep] at hrun
      exact hrest pre t hpre' hrun

theorem allowed_nil {s : S} : Allowed step ok s [] := by
  intro pre e s' hpre _
  exact absurd (List.prefix_nil.1 hpre) (List.append_ne_nil_of_right_ne_nil _ (by simp))

theorem allowed_cons {s s' : S} {e : E} (hstep : step s e = some s') (es : List E) :
    Allowed step ok s (e :: es) ↔ ok s e ∧ Allowed step ok s' es := by
  constructor
  · intro h
    refine ⟨h [] e s (List.cons_prefix_cons.2 ⟨rfl, List.nil_prefix⟩) rfl, ?_⟩
    intro pre a t hpre hrun
    exact h (e :: pre) a t (List.cons_prefix_cons.2 ⟨rfl, hpre⟩) ((run_cons hstep pre).trans hrun)
  · rintro ⟨hs, hrest⟩ pre a t hpre hrun
    cases pre with
    | nil =>
      obtain ⟨rfl, -⟩ := List.cons_prefix_cons.1 hpre
      exact Option.some.inj hrun ▸ hs
    | cons b pre =>
      obtain ⟨rfl, hpre'⟩ := List.cons_prefix_cons.1 hpre
      rw [run_cons hstep] at hrun
      exact hrest pre a t hpre' hrun

/-- A condition on the event alone. -/
theorem allowed_const_iff {Q : E → Prop} {start : S} (r : Run step start) :
    Allowed step (fun _ e => Q e) start r.events ↔ ∀ e ∈ r.events, Q e := by
  obtain ⟨es, hes⟩ := r
  induction es generalizing start with
  | nil => exact iff_of_true allowed_nil fun e he => absurd he List.not_mem_nil
  | cons e es ih =>
    obtain ⟨s, hs⟩ := exists_step hes
    have hes' : (run step s es).isSome = true := by rwa [run_cons hs] at hes
    show Allowed step (fun _ e => Q e) start (e :: es) ↔ ∀ a ∈ e :: es, Q a
    rw [allowed_cons hs, List.forall_mem_cons]
    exact and_congr_right fun _ => ih hes'

/-- **The rule for an exact condition.** -/
theorem along_iff_allowed {start : S} (hstart : I start) (hgood : ∀ s, I s → P s)
    (hkeep : ∀ s e s', I s → step s e = some s' → ok s e → I s')
    (hbreak : ∀ s e s', I s → step s e = some s' → ¬ ok s e → ¬ P s') (r : Run step start) :
    Along step P start r.events ↔ Allowed step ok start r.events := by
  obtain ⟨es, hes⟩ := r
  induction es generalizing start with
  | nil => exact iff_of_true (along_nil.2 (hgood start hstart)) allowed_nil
  | cons e es ih =>
    obtain ⟨s, hs⟩ := exists_step hes
    have hes' : (run step s es).isSome = true := by rwa [run_cons hs] at hes
    show Along step P start (e :: es) ↔ Allowed step ok start (e :: es)
    rw [along_cons hs, allowed_cons hs]
    by_cases hok : ok start e
    · exact and_congr (iff_of_true (hgood start hstart) hok)
        (ih (hkeep start e s hstart hs hok) hes')
    · have hbad : ¬ Along step P s es := fun h =>
        hbreak start e s hstart hs hok (h [] s List.nil_prefix rfl)
      exact iff_of_false (fun h => hbad h.2) fun h => hok h.1

end Runs
