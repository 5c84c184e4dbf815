import WebServer.Http.ParserSpec

/-!
# What a parser keeps of the buffers it has parsed

The only trace of a buffer is an entry for its first word, if it was not there, in the
method table.

* `mem_parseAll_iff`, `lookup_parseAll` — the names in the table of a parser with a history,
  and that an entry, once there, stays as it is.
* `requestFromBuffer_parseAll` — nobody can tell the history from what a parse returns.
-/

namespace WebServer

open Separator

/-- The words of the first line of a buffer. -/
def startWords (buffer : ByteString) : List ByteString :=
  match split buffer crlf with
  | .ok (startLine :: _) => (split startLine [space]).toOption.getD []
  | _ => []

/-- The first word, for which the method table is asked. -/
def methodToken (buffer : ByteString) : Option ByteString := (startWords buffer)[0]?

/-- The second word. -/
def pathToken (buffer : ByteString) : Option ByteString := (startWords buffer)[1]?

theorem startWords_nil {buffer : ByteString} (h : fields crlf buffer = []) :
    startWords buffer = [] := by
  rw [startWords, split_crlf, h]

theorem startWords_cons {buffer startLine : ByteString} {lines : List ByteString}
    (h : fields crlf buffer = startLine :: lines) :
    startWords buffer = fields [space] startLine := by
  rw [startWords, split_crlf, h]
  simp only [split_space]
  rfl

namespace HttpParser

/-- The table after a lookup of the first word of a buffer. -/
def learn (table : Finmap (fun _ : ByteString => HttpMethod)) (buffer : ByteString) :
    Finmap (fun _ : ByteString => HttpMethod) :=
  match methodToken buffer with
  | none => table
  | some token => (Table.subscript table token default).1

/-- **The trace of a parse**, however it ends. -/
theorem methodMapping_requestFromBuffer (p : HttpParser) (buffer : ByteString) :
    (p.requestFromBuffer buffer).1 = { p with methodMapping := learn p.methodMapping buffer } := by
  unfold learn methodToken
  rw [requestFromBuffer_fst, readStartLine, split_crlf]
  cases hlines : fields crlf buffer with
  | nil =>
    rw [startWords_nil hlines]
    rfl
  | cons startLine lines =>
    rw [startWords_cons hlines]
    simp only [split_space]
    rcases fields [space] startLine with _ | ⟨token, _ | ⟨path, rest⟩⟩
    · rfl
    · rfl
    · rfl

/-- The parser that a history of buffers makes of a parser. -/
def parseAll (p : HttpParser) (buffers : List ByteString) : HttpParser :=
  buffers.foldl (fun p buffer => (p.requestFromBuffer buffer).1) p

@[simp] theorem parseAll_nil (p : HttpParser) : p.parseAll [] = p := rfl

@[simp] theorem parseAll_cons (p : HttpParser) (buffer : ByteString) (buffers : List ByteString) :
    p.parseAll (buffer :: buffers) = (p.requestFromBuffer buffer).1.parseAll buffers := rfl

theorem reachable_parseAll {p : HttpParser} (h : p.Reachable) (buffers : List ByteString) :
    (p.parseAll buffers).Reachable := by
  induction buffers generalizing p with
  | nil => exact h
  | cons buffer buffers ih => exact ih (h.parse buffer)

/-! ## The names in the table -/

theorem mem_learn {table : Finmap (fun _ : ByteString => HttpMethod)} {buffer token : ByteString} :
    token ∈ learn table buffer ↔ token ∈ table ∨ methodToken buffer = some token := by
  unfold learn
  cases methodToken buffer with
  | none => simp
  | some t =>
    rw [Table.mem_subscript, Option.some.injEq, or_comm, eq_comm]

theorem lookup_learn {table : Finmap (fun _ : ByteString => HttpMethod)} {token : ByteString}
    (h : token ∈ table) (buffer : ByteString) :
    (learn table buffer).lookup token = table.lookup token := by
  unfold learn
  cases methodToken buffer with
  | none => rfl
  | some t => exact Table.lookup_subscript_of_mem h t default

/-- The names in the table are those that were there, and the first words of the history. -/
theorem mem_parseAll_iff {p : HttpParser} {buffers : List ByteString} {token : ByteString} :
    token ∈ (p.parseAll buffers).methodMapping ↔
      token ∈ p.methodMapping ∨ ∃ buffer ∈ buffers, methodToken buffer = some token := by
  have hstep : ∀ (p : HttpParser) (buffer : ByteString),
      token ∈ (p.requestFromBuffer buffer).1.methodMapping ↔
        token ∈ p.methodMapping ∨ methodToken buffer = some token := by
    intro p buffer
    rw [methodMapping_requestFromBuffer]
    exact mem_learn
  exact Table.foldl_grows _ (fun p : HttpParser => token ∈ p.methodMapping) _ hstep p buffers

/-- An entry stays as it is. -/
theorem lookup_parseAll {p : HttpParser} {token : ByteString} (h : token ∈ p.methodMapping)
    (buffers : List ByteString) :
    (p.parseAll buffers).methodMapping.lookup token = p.methodMapping.lookup token := by
  induction buffers generalizing p with
  | nil => rfl
  | cons buffer buffers ih =>
    have hstep := methodMapping_requestFromBuffer p buffer
    rw [parseAll_cons, ih (by rw [hstep]; exact mem_learn.2 (Or.inl h)), hstep]
    exact lookup_learn h buffer

/-- The names the constructor enters. -/
theorem mem_new {protocol : HttpProtocol} {token : ByteString} :
    token ∈ (new protocol).methodMapping ↔ ∃ m, token = methodName m := by
  have hstep : ∀ (table : Finmap (fun _ : ByteString => HttpMethod)) (m : HttpMethod),
      token ∈ table.insert (methodName m) m ↔ token ∈ table ∨ token = methodName m := by
    intro table m
    rw [Finmap.mem_insert, or_comm]
  have hall : ∀ m, m ∈ allMethods := fun m => by cases m <;> decide
  unfold new
  rw [Table.foldl_grows _ (token ∈ ·) _ hstep]
  simp [hall, Finmap.notMem_empty]

/-- The table is as before exactly when every first word was in it. -/
theorem methodMapping_parseAll_eq_iff {p : HttpParser} {buffers : List ByteString} :
    (p.parseAll buffers).methodMapping = p.methodMapping ↔
      ∀ buffer ∈ buffers, ∀ token, methodToken buffer = some token → token ∈ p.methodMapping := by
  constructor
  · intro h buffer hbuffer token htoken
    rw [← h, mem_parseAll_iff]
    exact Or.inr ⟨buffer, hbuffer, htoken⟩
  · intro h
    refine Finmap.ext_lookup fun token => ?_
    by_cases htoken : token ∈ p.methodMapping
    · exact lookup_parseAll htoken buffers
    · have hnone : token ∉ (p.parseAll buffers).methodMapping := by
        rw [mem_parseAll_iff]
        rintro (hin | ⟨buffer, hbuffer, ht⟩)
        · exact htoken hin
        · exact htoken (h buffer hbuffer token ht)
      rw [Finmap.lookup_eq_none.2 htoken, Finmap.lookup_eq_none.2 hnone]

/-! ## Histories -/

/-- **Parsing does not depend on history.** -/
theorem requestFromBuffer_parseAll (protocol : HttpProtocol) (history : List ByteString)
    (buffer : ByteString) :
    (((new protocol).parseAll history).requestFromBuffer buffer).2 =
      ((new protocol).requestFromBuffer buffer).2 := by
  have hhistory := reachable_parseAll (.new protocol) history
  rw [hhistory.requestFromBuffer_snd, (Reachable.new protocol).requestFromBuffer_snd]

end HttpParser

end WebServer
