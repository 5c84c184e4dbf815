import Mathlib.Data.List.TakeWhile
import Mathlib.Data.List.Forall2
import Mathlib.Tactic.Common

/-!
# The socket options of the server

`Server::Setup` sets the options of its configuration one after the other, and means to go on
when one is refused.  `SetSocketOption` closes the socket then, and returns true in any case.

* `ServerSocket.setOptions_eq` — what the loop leaves: the options before the first that is
  refused are set, and for each one from there on the socket is closed once more.
* `ServerSocket.failsSafely_iff` — when the loop does what it is for.
-/

namespace WebServer

/-- An option of the configuration, and what `setsockopt` returns for it on an open socket. -/
structure OptionCall where
  option : Int32
  answer : ℤ

/-- The option is refused. -/
def OptionCall.refused (c : OptionCall) : Bool := c.answer < 0

/-- The server socket, and what is done with its descriptor. -/
structure ServerSocket where
  isOpen : Bool
  /-- The options that are set, in order. -/
  applied : List Int32
  /-- How often `perror` was called. -/
  complaints : ℕ
  /-- How often `close` was called. -/
  closes : ℕ
  /-- The options that `Setup` has traced as failed. -/
  reported : List Int32

namespace ServerSocket

/-- After `socket`. -/
def new : ServerSocket := ⟨true, [], 0, 0, []⟩

/-- `setsockopt`, with its result.  For a descriptor that is closed it is -1. -/
def setsockopt (s : ServerSocket) (c : OptionCall) : ServerSocket × ℤ :=
  if s.isOpen then
    if c.refused then (s, c.answer)
    else ({ s with applied := s.applied ++ [c.option] }, c.answer)
  else (s, -1)

/-- `perror`. -/
def perror (s : ServerSocket) : ServerSocket := { s with complaints := s.complaints + 1 }

/-- `close`. -/
def close (s : ServerSocket) : ServerSocket := { s with isOpen := false, closes := s.closes + 1 }

/-- `Server::SetSocketOption`. -/
def setSocketOption (s : ServerSocket) (c : OptionCall) : ServerSocket × Bool :=
  let optval : Int32 := 1
  let call := s.setsockopt c
  let s := if call.2 < 0 then call.1.perror.close else call.1
  (s, optval != 0)

/-- A round of the loop of `Server::Setup`. -/
def setOption (s : ServerSocket) (c : OptionCall) : ServerSocket :=
  let result := s.setSocketOption c
  if !result.2 then { result.1 with reported := result.1.reported ++ [c.option] } else result.1

/-- The loop. -/
def setOptions (s : ServerSocket) (calls : List OptionCall) : ServerSocket :=
  calls.foldl setOption s

/-! ## What the loop leaves -/

/-- The socket is closed once more. -/
def closedAgain (s : ServerSocket) (times : ℕ) : ServerSocket :=
  { s with isOpen := false, complaints := s.complaints + times, closes := s.closes + times }

/-- A round on a closed socket. -/
theorem setOption_of_closed {s : ServerSocket} (h : s.isOpen = false) (c : OptionCall) :
    s.setOption c = s.closedAgain 1 := by
  simp only [setOption, setSocketOption, setsockopt, h, Bool.false_eq_true, if_false]
  rfl

/-- A round with an option that is refused. -/
theorem setOption_of_refused {s : ServerSocket} (h : s.isOpen = true) {c : OptionCall}
    (hc : c.refused = true) : s.setOption c = s.closedAgain 1 := by
  have hneg : c.answer < 0 := of_decide_eq_true hc
  simp only [setOption, setSocketOption, setsockopt, h, hc, if_true, if_pos hneg]
  rfl

/-- A round with one that is not. -/
theorem setOption_of_not_refused {s : ServerSocket} (h : s.isOpen = true) {c : OptionCall}
    (hc : c.refused = false) : s.setOption c = { s with applied := s.applied ++ [c.option] } := by
  have hneg : ¬ c.answer < 0 := of_decide_eq_false hc
  simp only [setOption, setSocketOption, setsockopt, h, hc, if_true, Bool.false_eq_true, if_false,
    if_neg hneg]
  rfl

/-- The loop on a closed socket. -/
theorem setOptions_of_closed {s : ServerSocket} (h : s.isOpen = false)
    (calls : List OptionCall) : s.setOptions calls = s.closedAgain calls.length := by
  induction calls generalizing s with
  | nil =>
    rw [closedAgain, ← h]
    rfl
  | cons c calls ih =>
    show (s.setOption c).setOptions calls = _
    rw [setOption_of_closed h, ih rfl]
    simp only [closedAgain, List.length_cons, Nat.add_assoc, Nat.add_comm 1]

/-- **What the loop leaves of an open socket.** -/
theorem setOptions_eq {s : ServerSocket} (h : s.isOpen = true) (calls : List OptionCall) :
    s.setOptions calls =
      { s with
        isOpen := !calls.any OptionCall.refused
        applied := s.applied ++
          (calls.takeWhile fun c => !c.refused).map OptionCall.option
        complaints := s.complaints + (calls.dropWhile fun c => !c.refused).length
        closes := s.closes + (calls.dropWhile fun c => !c.refused).length } := by
  induction calls generalizing s with
  | nil =>
    show s = _
    simp [← h]
  | cons c calls ih =>
    show (s.setOption c).setOptions calls = _
    cases hc : c.refused with
    | true =>
      rw [setOption_of_refused h hc, setOptions_of_closed rfl]
      simp [closedAgain, hc, Nat.add_assoc, Nat.add_comm 1]
    | false =>
      have hopen : ({ s with applied := s.applied ++ [c.option] } : ServerSocket).isOpen = true := h
      rw [setOption_of_not_refused h hc, ih hopen]
      simp [hc]

/-- When nothing is refused, everything is set. -/
theorem setOptions_of_kept {s : ServerSocket} (h : s.isOpen = true) {calls : List OptionCall}
    (hkept : ∀ c ∈ calls, c.refused = false) :
    s.setOptions calls = { s with applied := s.applied ++ calls.map OptionCall.option } := by
  have hgoes : ∀ c ∈ calls, (!c.refused) = true := fun c hc => by rw [hkept c hc]; rfl
  have hany : calls.any OptionCall.refused = false :=
    List.any_eq_false.2 fun c hc => by rw [hkept c hc]; exact Bool.false_ne_true
  rw [setOptions_eq h, hany, List.takeWhile_eq_self_iff.2 hgoes, List.dropWhile_eq_nil_iff.2 hgoes]
  obtain ⟨isOpen, applied, complaints, closes, reported⟩ := s
  cases h
  rfl

/-! ## What it is for -/

/-- The options that are refused, and no others, are reported; all others are set; and the socket
stays open, and was never closed. -/
structure FailsSafely (calls : List OptionCall) : Prop where
  reported : (new.setOptions calls).reported =
    (calls.filter OptionCall.refused).map OptionCall.option
  applied : (new.setOptions calls).applied =
    (calls.filter fun c => !c.refused).map OptionCall.option
  isOpen : (new.setOptions calls).isOpen = true
  closes : (new.setOptions calls).closes = 0

/-- **The loop fails safely only when nothing fails.** -/
theorem failsSafely_iff (calls : List OptionCall) :
    FailsSafely calls ↔ ∀ c ∈ calls, ¬ c.answer < 0 := by
  have hrefused : ∀ c : OptionCall, ¬ c.answer < 0 ↔ c.refused = false :=
    fun c => decide_eq_false_iff_not.symm
  simp only [hrefused]
  constructor
  · intro h
    have hopen := h.isOpen
    rw [setOptions_eq rfl] at hopen
    have hany : calls.any OptionCall.refused = false := by simpa using hopen
    simpa using hany
  · intro h
    have hset : new.setOptions calls = { new with applied := calls.map OptionCall.option } :=
      setOptions_of_kept rfl h
    have hnone : calls.filter OptionCall.refused = [] :=
      List.filter_eq_nil_iff.2 fun c hc => by rw [h c hc]; exact Bool.false_ne_true
    have hall : (calls.filter fun c => !c.refused) = calls :=
      List.filter_eq_self.2 fun c hc => by rw [h c hc]; rfl
    refine ⟨?_, ?_, ?_, ?_⟩
    · rw [hset, hnone]
      rfl
    · rw [hset, hall]
    · rw [hset]
      rfl
    · rw [hset]
      rfl

/-- One option that is refused closes the socket; the one behind it is not set, and closes the
descriptor a second time; and nothing is reported. -/
theorem not_failsSafely :
    ¬ FailsSafely [⟨9, -1⟩, ⟨2, 0⟩] ∧
      new.setOptions [⟨9, -1⟩, ⟨2, 0⟩] = ⟨false, [], 2, 2, []⟩ := by
  refine ⟨fun h => ?_, rfl⟩
  exact absurd h.isOpen (by decide)

end ServerSocket

end WebServer
