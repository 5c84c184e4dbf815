import WebServer.Http.Rendering
import WebServer.Library.Framing

/-!
# A client that reads responses off a connection

A connection is kept alive: one response follows another in one stream of bytes.  The
client cuts it at the first blank line and takes as many bytes below it as the one
`Content-Length` line announces.

* `HttpResponse.reader` — the client.
* `HttpResponse.frames_responseText` — a rendered response is one message to it, whatever
  its body.
* `HttpResponse.size_of_readReading` — what it has read tells how many bytes it took.
-/

namespace WebServer

namespace HttpResponse

/-- What a client reads: the lines of the head, and the body. -/
structure Reading where
  lines : List ByteString
  body : ByteString
  deriving DecidableEq

/-- What a client should read of a response. -/
def reading (response : HttpResponse) : Reading where
  lines := headLines response.protocol response.code response.body.length
  body := response.body

/-- The bytes that a message takes. -/
def Reading.size (m : Reading) : ℕ := (crlf.intercalate m.lines).length + 4 + m.body.length

/-- The first message of a stream, with the number of its bytes.  A head that does not
announce one length is waited for in vain. -/
def readReading (s : ByteString) : Option (Reading × ℕ) :=
  match Separator.leftmost (crlf ++ crlf) s with
  | none => none
  | some n =>
    match contentLengths (Separator.pieces crlf (s.take n)) with
    | [some length] =>
      if n + 4 + length ≤ s.length then
        some (⟨Separator.pieces crlf (s.take n), (s.drop (n + 4)).take length⟩, n + 4 + length)
      else none
    | _ => none

/-- **What it takes to read a message.** -/
theorem readReading_eq_some_iff {s : ByteString} {m : Reading} {k : ℕ} :
    readReading s = some (m, k) ↔
      ∃ n length, Separator.leftmost (crlf ++ crlf) s = some n ∧
        contentLengths (Separator.pieces crlf (s.take n)) = [some length] ∧
        n + 4 + length ≤ s.length ∧
        m = ⟨Separator.pieces crlf (s.take n), (s.drop (n + 4)).take length⟩ ∧
        k = n + 4 + length := by
  unfold readReading
  constructor
  · intro h
    split at h
    · cases h
    · rename_i n hn
      split at h
      · rename_i length hlength
        split at h
        · rename_i hle
          obtain ⟨rfl, rfl⟩ := Prod.mk.inj (Option.some.inj h)
          exact ⟨n, length, hn, hlength, hle, rfl, rfl⟩
        · cases h
      · cases h
  · rintro ⟨n, length, hn, hlength, hle, rfl, rfl⟩
    simp only [hn, hlength, if_pos hle]

/-- What arrives behind a message does not change it. -/
theorem readReading_stable {s : ByteString} {m : Reading} {k : ℕ}
    (h : readReading s = some (m, k)) (t : ByteString) : readReading (s ++ t) = some (m, k) := by
  obtain ⟨n, length, hn, hlength, hle, rfl, rfl⟩ := readReading_eq_some_iff.1 h
  have htake : (s ++ t).take n = s.take n := List.take_append_of_le_length (by omega)
  have hdrop : ((s ++ t).drop (n + 4)).take length = (s.drop (n + 4)).take length := by
    rw [List.drop_append_of_le_length (by omega), List.take_append_of_le_length]
    rw [List.length_drop]
    omega
  refine readReading_eq_some_iff.2 ⟨n, length, Separator.leftmost_stable hn t, ?_, ?_, ?_, rfl⟩
  · rw [htake, hlength]
  · rw [List.length_append]
    omega
  · rw [htake, hdrop]

/-- The client. -/
def reader : Framing.Reader UInt8 Reading where
  read := readReading
  pos h := by
    obtain ⟨n, length, -, -, -, -, rfl⟩ := readReading_eq_some_iff.1 h
    omega
  le_length h := by
    obtain ⟨n, length, -, -, hle, -, rfl⟩ := readReading_eq_some_iff.1 h
    exact hle
  stable h t := readReading_stable h t

/-- A message tells its size. -/
theorem size_of_readReading {s : ByteString} {m : Reading} {k : ℕ}
    (h : reader.read s = some (m, k)) : k = m.size := by
  obtain ⟨n, length, hn, -, hle, rfl, rfl⟩ := readReading_eq_some_iff.1 h
  have hhead : (crlf.intercalate (Separator.pieces crlf (s.take n))).length = n := by
    rw [Separator.intercalate_pieces (by decide), List.length_take]
    omega
  have hbody : ((s.drop (n + 4)).take length).length = length := by
    rw [List.length_take, List.length_drop]
    omega
  rw [Reading.size, hhead, hbody]

/-- **A rendered response is one message**, whatever its body. -/
theorem frames_responseText (response : HttpResponse) :
    reader.Frames (responseText response) (reading response) := by
  let head := crlf.intercalate
    (headLines response.protocol response.code response.body.length)
  have htext : responseText response = head ++ (crlf ++ crlf ++ response.body) :=
    responseText_eq response
  have hlines : Separator.pieces crlf ((responseText response).take head.length) =
      headLines response.protocol response.code response.body.length := by
    rw [htext, List.take_left, pieces_headLines]
  have hbody : (responseText response).drop (head.length + 4) = response.body := by
    rw [htext, ← List.drop_drop, List.drop_left]
    rfl
  have hlength : (responseText response).length = head.length + 4 + response.body.length := by
    rw [htext, List.length_append, List.length_append]
    exact (Nat.add_assoc ..).symm
  refine readReading_eq_some_iff.2 ⟨head.length, response.body.length,
    leftmost_bufferFromResponse response, ?_, hlength.ge, ?_, hlength⟩
  · rw [hlines, contentLengths_headLines]
  · rw [hlines, hbody, List.take_length]
    rfl

end HttpResponse

end WebServer
