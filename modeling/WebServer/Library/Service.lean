import Mathlib.Data.List.Basic
import Mathlib.Data.Nat.Notation
import Mathlib.Tactic.Common

/-!
# Services

A component that answers calls, one at a time: a `step` takes a state and a call to
the next state and a reply.  This is the shape of an object whose operations run
under one lock.

* `run`, `replies` — the state and the replies after a list of calls.
* `history` — the calls of a list, each with its reply.
* `Allowed` — every call of a list meets a condition in the state it is made in.
* `invariant` — what every allowed call keeps holds after every allowed run.
* `simulation` — two services whose states stay related call by call give the same
  replies.
-/

namespace Service

variable {S T C R : Type*}

section Runs

variable (step : S → C → S × R)

/-- The state after a list of calls. -/
def run : S → List C → S
  | s, [] => s
  | s, c :: cs => run (step s c).1 cs

/-- The replies to a list of calls, in order. -/
def replies : S → List C → List R
  | _, [] => []
  | s, c :: cs => (step s c).2 :: replies (step s c).1 cs

/-- The calls with their replies. -/
def history (s : S) (cs : List C) : List (C × R) := cs.zip (replies step s cs)

/-- Every call of the list is allowed in the state in which it is made. -/
def Allowed (allowed : S → C → Prop) : S → List C → Prop
  | _, [] => True
  | s, c :: cs => allowed s c ∧ Allowed allowed (step s c).1 cs

@[simp] theorem run_nil (s : S) : run step s [] = s := rfl

@[simp] theorem run_cons (s : S) (c : C) (cs : List C) :
    run step s (c :: cs) = run step (step s c).1 cs := rfl

@[simp] theorem replies_nil (s : S) : replies step s [] = [] := rfl

@[simp] theorem replies_cons (s : S) (c : C) (cs : List C) :
    replies step s (c :: cs) = (step s c).2 :: replies step (step s c).1 cs := rfl

@[simp] theorem run_append (s : S) (cs cs' : List C) :
    run step s (cs ++ cs') = run step (run step s cs) cs' := by
  induction cs generalizing s with
  | nil => rfl
  | cons c cs ih => exact ih _

theorem length_replies (s : S) (cs : List C) : (replies step s cs).length = cs.length := by
  induction cs generalizing s with
  | nil => rfl
  | cons c cs ih => exact congrArg (· + 1) (ih _)

theorem replies_append (s : S) (cs cs' : List C) :
    replies step s (cs ++ cs') = replies step s cs ++ replies step (run step s cs) cs' := by
  induction cs generalizing s with
  | nil => rfl
  | cons c cs ih => exact congrArg (_ :: ·) (ih _)

theorem history_append (s : S) (cs cs' : List C) :
    history step s (cs ++ cs') = history step s cs ++ history step (run step s cs) cs' := by
  rw [history, replies_append]
  exact List.zip_append (length_replies step s cs).symm

theorem history_calls (s : S) (cs : List C) : (history step s cs).map Prod.fst = cs :=
  List.map_fst_zip (Nat.le_of_eq (length_replies step s cs).symm)

variable {step} {allowed : S → C → Prop}

theorem allowed_append {s : S} {cs cs' : List C} :
    Allowed step allowed s (cs ++ cs') ↔
      Allowed step allowed s cs ∧ Allowed step allowed (run step s cs) cs' := by
  induction cs generalizing s with
  | nil => exact ⟨fun h => ⟨trivial, h⟩, fun h => h.2⟩
  | cons c cs ih => exact (and_congr_right fun _ => ih).trans and_assoc.symm

theorem allowed_of_forall (h : ∀ s c, allowed s c) (s : S) (cs : List C) :
    Allowed step allowed s cs := by
  induction cs generalizing s with
  | nil => trivial
  | cons c cs ih => exact ⟨h s c, ih _⟩

/-- **The invariant rule.** -/
theorem invariant {I : S → Prop}
    (hstep : ∀ s c, I s → allowed s c → I (step s c).1) {s : S} {cs : List C} (hs : I s)
    (hcs : Allowed step allowed s cs) : I (run step s cs) := by
  induction cs generalizing s with
  | nil => exact hs
  | cons c cs ih => exact ih (hstep s c hs hcs.1) hcs.2

end Runs

/-- **The simulation rule.** -/
theorem simulation {step : S → C → S × R} {step' : T → C → T × R} {allowed : S → C → Prop}
    {rel : S → T → Prop}
    (hstep : ∀ s t c, rel s t → allowed s c →
      (step s c).2 = (step' t c).2 ∧ rel (step s c).1 (step' t c).1)
    {s : S} {t : T} {cs : List C} (hst : rel s t) (hcs : Allowed step allowed s cs) :
    replies step s cs = replies step' t cs ∧ rel (run step s cs) (run step' t cs) := by
  induction cs generalizing s t with
  | nil => exact ⟨rfl, hst⟩
  | cons c cs ih =>
    obtain ⟨hreply, hrel⟩ := hstep s t c hst hcs.1
    obtain ⟨hreplies, hrun⟩ := ih hrel hcs.2
    refine ⟨?_, hrun⟩
    rw [replies_cons, replies_cons, hreply, hreplies]

end Service
