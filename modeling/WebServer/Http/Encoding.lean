import WebServer.Http.Rendering

/-!
# What of a response reaches its text

A response is made by calls of its setters, and `BufferFromResponse` puts five header
lines of its own into the text, whatever headers the response has, and one of three
status texts.

* `HttpResponse.build_eq` — a response is what was set last and all that was added.
* `HttpResponse.statusNumber_headLines`, `HttpResponse.headerFields_headLines` — the status
  and the header fields that a client reads.
* `HttpResponse.faithful_iff` — the responses whose status and headers a client gets.
-/

namespace WebServer

namespace HttpResponse

/-! ## Building a response -/

/-- A call of a setter. -/
inductive SetterCall
  | setStatusCode (code : HttpStatusCode)
  | setProtocol (protocol : HttpProtocol)
  | setBody (body : ByteString)
  | addHeader (header : HttpHeader)

/-- The call. -/
def apply (r : HttpResponse) : SetterCall → HttpResponse
  | .setStatusCode code => r.setStatusCode code
  | .setProtocol protocol => r.setProtocol protocol
  | .setBody body => r.setBody body
  | .addHeader header => r.addHeader header

/-- The response that calls make of a new one. -/
def build (calls : List SetterCall) : HttpResponse := calls.foldl apply new

namespace SetterCall

/-- The status that a call sets. -/
def status : SetterCall → Option HttpStatusCode
  | .setStatusCode code => some code
  | _ => none

/-- The protocol that a call sets. -/
def protocol : SetterCall → Option HttpProtocol
  | .setProtocol protocol => some protocol
  | _ => none

/-- The body that a call sets. -/
def body : SetterCall → Option ByteString
  | .setBody body => some body
  | _ => none

/-- The header that a call adds. -/
def header : SetterCall → Option HttpHeader
  | .addHeader header => some header
  | _ => none

end SetterCall

/-- What the calls set last, and `unset` if they set nothing. -/
def lastSet {A : Type} (pick : SetterCall → Option A) (unset : A) (calls : List SetterCall) : A :=
  (calls.filterMap pick).getLast?.getD unset

/-- The headers that the calls add, in order. -/
def added (calls : List SetterCall) : HttpHeaders := calls.filterMap SetterCall.header

theorem lastSet_append {A : Type} (pick : SetterCall → Option A) (unset : A)
    (calls : List SetterCall) (c : SetterCall) :
    lastSet pick unset (calls ++ [c]) = (pick c).getD (lastSet pick unset calls) := by
  rw [lastSet, List.filterMap_append]
  cases hc : pick c with
  | none => simp [hc, lastSet]
  | some value => simp [hc]

/-- **A response is what was set last and all that was added.** -/
theorem build_eq (calls : List SetterCall) :
    build calls = ⟨lastSet SetterCall.status .ok calls, lastSet SetterCall.protocol .v11 calls,
      added calls, lastSet SetterCall.body [] calls⟩ := by
  induction calls using List.reverseRecOn with
  | nil => rfl
  | append_singleton calls c ih =>
    rw [build, List.foldl_append, ← build, ih]
    simp only [lastSet_append, added, List.filterMap_append]
    cases c <;> simp [apply, setStatusCode, setProtocol, setBody, addHeader, SetterCall.status,
      SetterCall.protocol, SetterCall.body, SetterCall.header]

/-! ## Reading a response -/

/-- The lines above the first blank one. -/
def readHead (text : ByteString) : List ByteString :=
  match Separator.leftmost (crlf ++ crlf) text with
  | none => []
  | some n => Separator.pieces crlf (text.take n)

/-- The number behind the first blank of the first line. -/
def statusNumber (lines : List ByteString) : Option ℕ :=
  readDecimal (((lines.headD []).dropWhile (· ≠ space)).drop 1 |>.takeWhile (· ≠ space))

/-- What is left of the first colon of a line, and what is right of it and of a blank. -/
def readField (line : ByteString) : HttpHeader where
  key := line.takeWhile (· ≠ colon)
  value :=
    let value := (line.dropWhile (· ≠ colon)).drop 1
    if value.head? = some space then value.drop 1 else value

/-- The header fields, which are on the lines below the first. -/
def headerFields (lines : List ByteString) : HttpHeaders := lines.tail.map readField

/-- The header fields that `BufferFromResponse` writes. -/
def fixedFields (length : ℕ) : HttpHeaders :=
  [⟨bytes "Date", bytes "Mon, 16 Sep 2019 09:10:10 GMT"⟩,
    ⟨bytes "Server", bytes "cpp-webserver-eventdriven-1.0"⟩,
    ⟨bytes "Connection", bytes "Keep-Alive"⟩,
    ⟨bytes "Content-Type", bytes "application/json"⟩,
    ⟨bytes "Content-Length", decimal length⟩]

/-- Of the text a client reads the head that protocol, code and length determine. -/
theorem readHead_bufferFromResponse (response : HttpResponse) :
    readHead (bufferFromResponse response).data =
      headLines response.protocol response.code response.body.length := by
  rw [readHead, leftmost_bufferFromResponse]
  show Separator.pieces crlf ((responseText response).take _) = _
  rw [responseText_eq, List.take_left, pieces_headLines]

theorem statusNumber_headLines (protocol : HttpProtocol) (code : HttpStatusCode) (length : ℕ) :
    statusNumber (headLines protocol code length) =
      readDecimal ((getReadableStatusCode code).takeWhile (· ≠ space)) := by
  cases protocol <;> rfl

theorem headerFields_headLines (protocol : HttpProtocol) (code : HttpStatusCode) (length : ℕ) :
    headerFields (headLines protocol code length) = fixedFields length := by
  rfl

/-- Three of the codes have a text of their own. -/
theorem readable_iff (code : HttpStatusCode) :
    readDecimal ((getReadableStatusCode code).takeWhile (· ≠ space)) = some code.value.toNat ↔
      code = .ok ∨ code = .notFound ∨ code = .internalServerError := by
  cases code <;> decide

/-! ## Faithful responses -/

/-- The headers with the names by which they are compared. -/
def named (name : ByteString → ByteString) (headers : HttpHeaders) : HttpHeaders :=
  headers.map fun header => ⟨name header.key, header.value⟩

/-- Of the response that the calls make, a client reads the status that was set last, and
every added header, in order; keys are compared by `name`. -/
structure Faithful (name : ByteString → ByteString) (calls : List SetterCall) : Prop where
  status : statusNumber (readHead (bufferFromResponse (build calls)).data) =
    some (lastSet SetterCall.status .ok calls).value.toNat
  headers : (named name (added calls)).Sublist
    (named name (headerFields (readHead (bufferFromResponse (build calls)).data)))

/-- **The exact condition**: one of the three codes that have a text, and no header but those
that every response has. -/
theorem faithful_iff (name : ByteString → ByteString) (calls : List SetterCall) :
    Faithful name calls ↔
      (lastSet SetterCall.status .ok calls = .ok ∨
        lastSet SetterCall.status .ok calls = .notFound ∨
        lastSet SetterCall.status .ok calls = .internalServerError) ∧
      (named name (added calls)).Sublist
        (named name (fixedFields (lastSet SetterCall.body [] calls).length)) := by
  have hhead := readHead_bufferFromResponse (build calls)
  rw [build_eq] at hhead
  constructor
  · intro h
    have hstatus := h.status
    have hheaders := h.headers
    rw [build_eq, hhead, statusNumber_headLines, readable_iff] at hstatus
    rw [build_eq, hhead, headerFields_headLines] at hheaders
    exact ⟨hstatus, hheaders⟩
  · rintro ⟨hstatus, hheaders⟩
    refine ⟨?_, ?_⟩
    · rw [build_eq, hhead, statusNumber_headLines, readable_iff]
      exact hstatus
    · rw [build_eq, hhead, headerFields_headLines]
      exact hheaders

/-- A status 201 is read as 404, and a header of the handler's own is not read at all. -/
theorem not_faithful :
    ¬ Faithful id [.setStatusCode .created] ∧
      ¬ Faithful id [.addHeader ⟨bytes "X-Id", bytes "7"⟩] := by
  constructor
  · intro h
    have hstatus := h.status
    rw [readHead_bufferFromResponse, statusNumber_headLines] at hstatus
    exact absurd hstatus (by decide)
  · intro h
    have hheaders := h.headers
    rw [readHead_bufferFromResponse, headerFields_headLines] at hheaders
    exact absurd hheaders (by decide)

end HttpResponse

end WebServer
