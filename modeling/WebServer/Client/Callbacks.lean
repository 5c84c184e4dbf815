import WebServer.Library.Runs
import WebServer.Client.TlsDecorator

/-!
# The callbacks of the TLS client

`Connect` registers two callbacks, which `tls_write` runs inside `SendData`; one of them calls
`SendData` again.  All three begin with taking the same mutex, and hold it until they return.

* `TlsDecorator.step` — what can happen to the call stack of the thread.
* `TlsDecorator.Flat` — the stacks as long as no callback is run.
* `TlsDecorator.locksOnce_iff` — when the mutex is not taken twice.
-/

namespace WebServer

/-- A function of the class that is running. -/
inductive Frame
  | sendData (data : ByteString) (s : Sending)
  | readCallback (buflen : ℕ)
  /-- It has called `SendData` or not. -/
  | writeCallback (buf : ByteString) (sent : Bool)

/-- A running function, and whether it has got the mutex, which it asks for first of all. -/
structure Activation where
  frame : Frame
  holds : Bool

/-- What runs in the thread, the innermost function first. -/
abbrev CallStack := List Activation

/-- What can happen in the thread. -/
inductive ClientEvent
  /-- The client calls `SendData`. -/
  | call (data : ByteString)
  /-- The innermost function gets the mutex. -/
  | lock
  /-- `tls_write` runs the read callback. -/
  | runRead (buflen : ℕ)
  /-- `tls_write` runs the write callback. -/
  | runWrite (buf : ByteString)
  /-- `tls_write` returns. -/
  | written (result : WriteResult)
  /-- The write callback calls `SendData`. -/
  | sends
  /-- The callback returns to `tls_write`. -/
  | answers (amt : ℤ)
  /-- `SendData` returns. -/
  | returns

/-- `tls_write` runs one of the callbacks. -/
def ClientEvent.isCallback : ClientEvent → Bool
  | .runRead _ => true
  | .runWrite _ => true
  | _ => false

namespace TlsDecorator

/-- `SendData` is in its call of `tls_write`. -/
def inTlsWrite (data : ByteString) (s : Sending) : Bool := !done data s && !s.waiting

/-- The mutex is taken. -/
def locked (stack : CallStack) : Bool := stack.any Activation.holds

/-- The innermost function asks for the mutex, and one that it was called from has it. -/
def locksAgain : CallStack → Bool
  | [] => false
  | a :: below => !a.holds && locked below

/-- What the read callback returns. -/
def readAmount (d : TlsDecorator) (buflen : ℕ) : ℤ :=
  let amt := min buflen d.receiveBuffer.length
  if amt = 0 ∧ d.isOpen = true then tlsWantPollin else amt

/-- A function that asks for the mutex.  While it is taken, it waits for ever. -/
def lockStep (below : CallStack) (frame : Frame) : ClientEvent → Option CallStack
  | .lock => if locked below then none else some (⟨frame, true⟩ :: below)
  | _ => none

/-- `SendData`, when it has the mutex.  In its wait it gives the mutex back, but then nothing
else happens in the thread. -/
def sendDataStep (d : TlsDecorator) (below : CallStack) (data : ByteString) (s : Sending) :
    ClientEvent → Option CallStack
  | .runRead buflen =>
    if inTlsWrite data s then
      some (⟨.readCallback buflen, false⟩ :: ⟨.sendData data s, true⟩ :: below)
    else none
  | .runWrite buf =>
    if inTlsWrite data s then
      some (⟨.writeCallback buf false, false⟩ :: ⟨.sendData data s, true⟩ :: below)
    else none
  | .written result =>
    if inTlsWrite data s then some (⟨.sendData data (d.body data s result), true⟩ :: below)
    else none
  | .returns => if done data s then some below else none
  | _ => none

/-- The read callback. -/
def readCallbackStep (d : TlsDecorator) (below : CallStack) (buflen : ℕ) :
    ClientEvent → Option CallStack
  | .answers amt => if amt = d.readAmount buflen then some below else none
  | _ => none

/-- The write callback, before and after its call of `SendData`. -/
def writeCallbackStep (below : CallStack) (buf : ByteString) :
    Bool → ClientEvent → Option CallStack
  | false, .sends =>
    some (⟨.sendData buf .start, false⟩ :: ⟨.writeCallback buf true, true⟩ :: below)
  | true, .answers amt => if amt = buf.length then some below else none
  | _, _ => none

/-- What becomes of the stack, if the event can happen. -/
def step (d : TlsDecorator) : CallStack → ClientEvent → Option CallStack
  | [], .call data => some [⟨.sendData data .start, false⟩]
  | [], _ => none
  | ⟨frame, false⟩ :: below, e => lockStep below frame e
  | ⟨.sendData data s, true⟩ :: below, e => d.sendDataStep below data s e
  | ⟨.readCallback buflen, true⟩ :: below, e => d.readCallbackStep below buflen e
  | ⟨.writeCallback buf sent, true⟩ :: below, e => writeCallbackStep below buf sent e

/-! ## Without callbacks -/

/-- Nothing but a `SendData` that the client has called. -/
def Flat (stack : CallStack) : Prop :=
  stack = [] ∨ ∃ data s holds, stack = [⟨.sendData data s, holds⟩]

/-- The thread has the mutex once at most, and does not ask for it when it has it. -/
structure LocksOnce (stack : CallStack) : Prop where
  once : stack.countP Activation.holds ≤ 1
  not_again : locksAgain stack = false

theorem locksOnce_of_flat {stack : CallStack} (h : Flat stack) : LocksOnce stack := by
  obtain rfl | ⟨data, s, holds, rfl⟩ := h
  · exact ⟨Nat.zero_le _, rfl⟩
  · refine ⟨List.countP_le_length, ?_⟩
    rw [locksAgain, locked, List.any_nil, Bool.and_false]

/-- Without a callback the stack stays flat. -/
theorem flat_step {d : TlsDecorator} {stack stack' : CallStack} {e : ClientEvent}
    (h : Flat stack) (hstep : d.step stack e = some stack') (he : e.isCallback = false) :
    Flat stack' := by
  obtain rfl | ⟨data, s, holds, rfl⟩ := h
  · cases e with
    | call data => exact Or.inr ⟨data, .start, false, (Option.some.inj hstep).symm⟩
    | _ => cases hstep
  · cases holds with
    | false =>
      cases e with
      | lock => exact Or.inr ⟨data, s, true, (Option.some.inj hstep).symm⟩
      | _ => cases hstep
    | true =>
      cases e with
      | runRead buflen => cases he
      | runWrite buf => cases he
      | written result =>
        simp only [step, sendDataStep] at hstep
        split_ifs at hstep
        exact Or.inr ⟨data, _, true, (Option.some.inj hstep).symm⟩
      | returns =>
        simp only [step, sendDataStep] at hstep
        split_ifs at hstep
        exact Or.inl (Option.some.inj hstep).symm
      | _ => cases hstep

/-! ## With a callback -/

/-- A function that waits for the mutex runs no callback. -/
theorem lockStep_of_callback (below : CallStack) (frame : Frame) {e : ClientEvent}
    (he : e.isCallback = true) : lockStep below frame e = none := by
  cases e with
  | lock => cases he
  | _ => rfl

/-- Nor does one of the callbacks. -/
theorem readCallbackStep_of_callback (d : TlsDecorator) (below : CallStack) (buflen : ℕ)
    {e : ClientEvent} (he : e.isCallback = true) : d.readCallbackStep below buflen e = none := by
  cases e with
  | answers amt => cases he
  | _ => rfl

theorem writeCallbackStep_of_callback (below : CallStack) (buf : ByteString) (sent : Bool)
    {e : ClientEvent} (he : e.isCallback = true) :
    writeCallbackStep below buf sent e = none := by
  cases e with
  | runRead buflen => cases sent <;> rfl
  | runWrite buf' => cases sent <;> rfl
  | _ => cases he

/-- `SendData` does, and has the mutex. -/
theorem locksAgain_sendDataStep {d : TlsDecorator} {below stack : CallStack} {data : ByteString}
    {s : Sending} {e : ClientEvent} (hstep : d.sendDataStep below data s e = some stack)
    (he : e.isCallback = true) : locksAgain stack = true := by
  cases e with
  | runRead buflen =>
    rw [sendDataStep] at hstep
    split_ifs at hstep
    rw [← Option.some.inj hstep]
    rfl
  | runWrite buf =>
    rw [sendDataStep] at hstep
    split_ifs at hstep
    rw [← Option.some.inj hstep]
    rfl
  | _ => cases he

/-- So a callback is run by a `SendData` that has the mutex, and begins with asking for it. -/
theorem locksAgain_step {d : TlsDecorator} {stack stack' : CallStack} {e : ClientEvent}
    (hstep : d.step stack e = some stack') (he : e.isCallback = true) :
    locksAgain stack' = true := by
  rcases stack with _ | ⟨⟨frame, holds⟩, below⟩
  · cases e with
    | call data => cases he
    | _ => cases hstep
  · cases holds with
    | false =>
      rw [step, lockStep_of_callback below frame he] at hstep
      cases hstep
    | true =>
      cases frame with
      | sendData data s => exact locksAgain_sendDataStep hstep he
      | readCallback buflen =>
        rw [step, readCallbackStep_of_callback d below buflen he] at hstep
        cases hstep
      | writeCallback buf sent =>
        rw [step, writeCallbackStep_of_callback below buf sent he] at hstep
        cases hstep

/-- A thread that asks for the mutex it has comes to an end there. -/
theorem stuck_of_locksAgain (d : TlsDecorator) {stack : CallStack}
    (h : locksAgain stack = true) (e : ClientEvent) : d.step stack e = none := by
  rcases stack with _ | ⟨⟨frame, holds⟩, below⟩
  · cases h
  · obtain ⟨hholds, hlocked⟩ := Bool.and_eq_true_iff.1 h
    cases holds with
    | true => cases hholds
    | false =>
      cases e with
      | lock => exact if_pos hlocked
      | _ => rfl

/-- **When the mutex is not taken twice**: in the runs in which `tls_write` runs no callback. -/
theorem locksOnce_iff (d : TlsDecorator) (r : Runs.Run d.step []) :
    Runs.Along d.step LocksOnce [] r.events ↔ ∀ e ∈ r.events, e.isCallback = false := by
  rw [← Runs.allowed_const_iff]
  refine Runs.along_iff_allowed (I := Flat) (Or.inl rfl) (fun _ => locksOnce_of_flat)
    (fun _ _ _ => flat_step) (fun _ e _ _ hstep he h => ?_) r
  have hagain := locksAgain_step hstep (by simpa using he)
  exact absurd (h.not_again.symm.trans hagain) Bool.false_ne_true

/-- `tls_write` has a record to send, and runs the write callback for it. -/
def writingBack : Runs.Run new.step [] where
  events := [.call (bytes "a"), .lock, .runWrite (bytes "x")]
  possible := rfl

/-- The callback asks for the mutex that `SendData` has. -/
theorem not_locksOnce : ¬ Runs.Along new.step LocksOnce [] writingBack.events := by
  intro h
  have hlast := (h writingBack.events _ List.prefix_rfl rfl).not_again
  exact absurd hlast (by decide)

end TlsDecorator

end WebServer
