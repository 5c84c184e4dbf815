import WebServer.Http.ParserSpec

/-!
# Requests as a client writes them

* `RequestHead` — a start line and a list of `key: value` headers that a client
  may send; its fields say that no part of it contains a byte that would end it.
* `fields_text`, `parse_text` — how the parser reads such a text, with any bytes
  after the blank line.
* `requestFromBuffer_text` — parsing undoes rendering.
* `framed_iff` — which bodies a `POST`, `PUT` or `PATCH` gets back unchanged.
-/

namespace WebServer

open Separator

/-! ## The text of a request -/

/-- A well-formed start line and well-formed headers. -/
structure RequestHead where
  method : HttpMethod
  path : ByteString
  /-- The third word of the start line, such as `HTTP/1.1`. -/
  version : ByteString
  headers : HttpHeaders
  path_ne_nil : path ≠ []
  path_clean : space ∉ path ∧ cr ∉ path ∧ lf ∉ path
  version_clean : cr ∉ version ∧ lf ∉ version
  key_clean : ∀ h ∈ headers, colon ∉ h.key ∧ cr ∉ h.key ∧ lf ∉ h.key
  value_clean : ∀ h ∈ headers, cr ∉ h.value ∧ lf ∉ h.value

/-- `key: value`. -/
def headerLine (h : HttpHeader) : ByteString := h.key ++ colon :: space :: h.value

namespace RequestHead

/-- `METHOD path version`. -/
def startLine (h : RequestHead) : ByteString :=
  methodName h.method ++ ([space] ++ (h.path ++ ([space] ++ h.version)))

/-- The lines of the head. -/
def lines (h : RequestHead) : List ByteString := h.startLine :: h.headers.map headerLine

/-- The lines of the head with a line break between any two. -/
def head (h : RequestHead) : ByteString := crlf.intercalate h.lines

/-- The head and a body: every line is ended by a line break, and a blank line
comes between them. -/
def text (h : RequestHead) (body : ByteString) : ByteString :=
  h.lines.flatMap (· ++ crlf) ++ (crlf ++ body)

/-- The two ways to write a request down are the same. -/
theorem text_eq (h : RequestHead) (body : ByteString) :
    h.text body = h.head ++ (crlf ++ (crlf ++ body)) := by
  have key : ∀ (w : ByteString) (ws : List ByteString),
      (w :: ws).flatMap (· ++ crlf) = crlf.intercalate (w :: ws) ++ crlf := by
    intro w ws
    induction ws generalizing w with
    | nil => simp [List.intercalate]
    | cons v ws ih =>
      rw [List.flatMap_cons, ih]
      simp [List.intercalate, List.intersperse]
  rw [text, head, lines, key, List.append_assoc]

/-! ## How the parser cuts it up -/

theorem cr_not_mem_methodName (m : HttpMethod) : cr ∉ methodName m := by
  cases m <;> decide

theorem space_not_mem_methodName (m : HttpMethod) : space ∉ methodName m := by
  cases m <;> decide

theorem methodName_ne_nil (m : HttpMethod) : methodName m ≠ [] := by
  cases m <;> decide

theorem line_ne_nil (h : RequestHead) : ∀ l ∈ h.lines, l ≠ [] := by
  intro l hl
  rcases List.mem_cons.1 hl with rfl | hl
  · simp [startLine, methodName_ne_nil]
  · obtain ⟨hd, -, rfl⟩ := List.mem_map.1 hl
    simp [headerLine]

theorem cr_not_mem_line (h : RequestHead) : ∀ l ∈ h.lines, cr ∉ l := by
  intro l hl
  rcases List.mem_cons.1 hl with rfl | hl
  · simp only [startLine, List.mem_append, List.mem_singleton, not_or]
    exact ⟨cr_not_mem_methodName _, by decide, h.path_clean.2.1, by decide, h.version_clean.1⟩
  · obtain ⟨hd, hhd, rfl⟩ := List.mem_map.1 hl
    simp only [headerLine, List.mem_append, List.mem_cons, not_or]
    exact ⟨(h.key_clean hd hhd).2.1, by decide, by decide, (h.value_clean hd hhd).1⟩

/-- **No line break straddles two parts**: the fields of the text are the lines of
the head and then the fields of the body. -/
theorem fields_text (h : RequestHead) (body : ByteString) :
    fields crlf (h.text body) = h.lines ++ fields crlf body := by
  have hskip : fields crlf (crlf ++ body) = fields crlf body :=
    fields_separator_append cr [lf] body
  rw [← hskip]
  exact fields_flatMap_append (x := cr) (d := [lf]) h.line_ne_nil h.cr_not_mem_line _

theorem fields_startLine (h : RequestHead) :
    fields [space] h.startLine = methodName h.method :: h.path :: fields [space] h.version := by
  rw [startLine, fields_append (space_not_mem_methodName _), if_neg (methodName_ne_nil _),
    fields_append h.path_clean.1, if_neg h.path_ne_nil]
  rfl

theorem leftmost_headerLine {hd : HttpHeader} (hk : colon ∉ hd.key) :
    leftmost [colon] (headerLine hd) = some hd.key.length :=
  leftmost_singleton hk _

theorem rightStart_headerLine {hd : HttpHeader} (hk : colon ∉ hd.key) :
    rightStart (headerLine hd) [colon] = hd.key.length + 2 := by
  rw [rightStart, find_zero, leftmost_headerLine hk]
  rfl

theorem cuttable_headerLine {hd : HttpHeader} (hk : colon ∉ hd.key) :
    Cuttable (headerLine hd) := by
  rw [Cuttable, rightStart_headerLine hk, headerLine]
  simp only [List.length_append, List.length_cons]
  omega

/-- A header line is cut back into its key and its value. -/
theorem cutHeader_headerLine {hd : HttpHeader} (hk : colon ∉ hd.key) :
    cutHeader (headerLine hd) = hd := by
  obtain ⟨key, value⟩ := hd
  rw [cutHeader, rightStart_headerLine hk, leftmost_headerLine hk]
  simp [headerLine]

theorem map_cutHeader (h : RequestHead) :
    (h.headers.map headerLine).map cutHeader = h.headers := by
  rw [List.map_map]
  conv_rhs => rw [← List.map_id h.headers]
  exact List.map_congr_left fun hd hhd => cutHeader_headerLine (h.key_clean hd hhd).1

theorem cuttable_of_mem (h : RequestHead) :
    ∀ line ∈ h.headers.map headerLine, Cuttable line := by
  intro line hl
  obtain ⟨hd, hhd, rfl⟩ := List.mem_map.1 hl
  exact cuttable_headerLine (h.key_clean hd hhd).1

/-- The start line of the text, and the lines below it. -/
theorem startLineOf_text (h : RequestHead) (body : ByteString) :
    HttpParser.startLineOf (h.text body) =
      .ok (h.method, h.path, h.headers.map headerLine ++ fields crlf body) := by
  rw [HttpParser.startLineOf, h.fields_text body, lines, List.cons_append]
  simp only [h.fields_startLine, methodOf_methodName]

/-! ## Parsing undoes rendering -/

/-- The bodies that go with a method: none, or a single line. -/
def BodyFits (m : HttpMethod) (body : ByteString) : Prop :=
  if requestHasBody m then body ≠ [] ∧ ¬ crlf <:+: body else body = []

theorem parse_text (h : RequestHead) {body : ByteString} (hb : BodyFits h.method body) :
    HttpParser.parse (h.text body) = .ok ⟨h.path, .v11, h.method, h.headers, body⟩ := by
  rw [HttpParser.parse, h.startLineOf_text body]
  rw [BodyFits] at hb
  cases hm : requestHasBody h.method with
  | true =>
    rw [if_pos hm] at hb
    have hfields : fields crlf body = [body] := by
      rw [fields_of_no_occurrence hb.2, if_neg hb.1]
    have hlines : headerLines h.method (h.headers.map headerLine ++ [body]) =
        h.headers.map headerLine := by
      rw [headerLines, if_pos hm, List.dropLast_concat]
    have hbody : bodyLine h.method (h.headers.map headerLine ++ [body]) = body := by
      simp [bodyLine, hm]
    simp only [hfields]
    rw [readFields_eq (by simp), hlines, if_pos h.cuttable_of_mem, h.map_cutHeader, hbody]
  | false =>
    rw [if_neg (by simp [hm])] at hb
    have hfields : fields crlf body = [] := by
      rw [hb]
      exact fields_nil (by decide)
    have hlines : headerLines h.method (h.headers.map headerLine) =
        h.headers.map headerLine := by
      rw [headerLines, if_neg (by simp [hm])]
    have hbody : bodyLine h.method (h.headers.map headerLine) = body := by
      rw [bodyLine, if_neg (by simp [hm]), hb]
    simp only [hfields, List.append_nil]
    rw [readFields_eq (by simp [hm]), hlines, if_pos h.cuttable_of_mem, h.map_cutHeader, hbody]

/-- **Parsing undoes rendering**, on a parser with any history: the request has
the method, the path, the headers and the body that were written, and looking up a
header finds the first one with the key, or throws when there is none. -/
theorem requestFromBuffer_text {p : HttpParser} (hp : p.Reachable) (h : RequestHead)
    (body : ByteString) (hb : BodyFits h.method body) :
    ∃ r, (p.requestFromBuffer (h.text body)).2 = .ok r ∧
      r.method = h.method ∧ r.path = h.path ∧ r.headers = h.headers ∧ r.body = body ∧
      (∀ key pre value post, h.headers = pre ++ ⟨key, value⟩ :: post →
        (∀ x ∈ pre, x.key ≠ key) → r.getHeader key = .ok value) ∧
      (∀ key, (∃ reason, r.getHeader key = .error (.thrown (.notFoundException reason))) ↔
        ∀ x ∈ h.headers, x.key ≠ key) := by
  rw [hp.requestFromBuffer_snd, h.parse_text hb]
  refine ⟨_, rfl, rfl, rfl, rfl, rfl, ?_, ?_⟩
  · intro key pre value post hpre hne
    exact HttpRequest.getHeader_first hpre hne
  · intro key
    exact HttpRequest.getHeader_throws_iff

/-! ## Where the body begins -/

/-- A head with a body method and one header. -/
def postHead : RequestHead where
  method := .post
  path := bytes "/"
  version := bytes "HTTP/1.1"
  headers := [⟨bytes "A", bytes "b"⟩]
  path_ne_nil := by decide
  path_clean := by decide
  version_clean := by decide
  key_clean := by decide
  value_clean := by decide

/-- A `POST` with a header and a body of one line round-trips. -/
theorem requestFromBuffer_text_post :
    BodyFits .post (bytes "c") ∧
      ∃ r, ((HttpParser.new .v11).requestFromBuffer (postHead.text (bytes "c"))).2 = .ok r ∧
        r.headers = [⟨bytes "A", bytes "b"⟩] ∧ r.body = bytes "c" := by
  have hb : BodyFits .post (bytes "c") := by
    show bytes "c" ≠ [] ∧ ¬ crlf <:+: bytes "c"
    decide
  obtain ⟨r, hr, -, -, hheaders, hbody, -⟩ :=
    requestFromBuffer_text (.new .v11) postHead (bytes "c") hb
  exact ⟨hb, r, hr, hheaders, hbody⟩

/-- The request ends its head where the text does: its headers are the lines of
the head, and its body is all that follows the blank line. -/
def Framed (p : HttpParser) (h : RequestHead) (body : ByteString) : Prop :=
  ∃ r, (p.requestFromBuffer (h.head ++ (crlf ++ (crlf ++ body)))).2 = .ok r ∧
    r.headers = h.headers ∧ r.body = body

/-- **Exactly which bodies are kept apart from the headers**: those that are not
empty and contain no line break. -/
theorem framed_iff {p : HttpParser} (hp : p.Reachable) (h : RequestHead)
    (hm : requestHasBody h.method = true) (body : ByteString) :
    Framed p h body ↔ body ≠ [] ∧ ¬ crlf <:+: body := by
  rw [Framed, hp.requestFromBuffer_snd, ← text_eq]
  constructor
  · rintro ⟨r, hr, -, hbody⟩
    rcases HttpParser.parse_cases (h.text body) with
      ⟨-, hp⟩ | ⟨-, -, hp⟩ | ⟨-, m, path, ls, hstart, hp, hne⟩
    · rw [hr] at hp; cases hp
    · rw [hr] at hp; cases hp
    · -- the body of the request is the last line of the buffer
      rw [hr, Except.ok.injEq] at hp
      rw [h.startLineOf_text body, Except.ok.injEq, Prod.mk.injEq, Prod.mk.injEq] at hstart
      obtain ⟨rfl, -, hls⟩ := hstart
      have hmem : body ∈ fields crlf (h.text body) := by
        rw [h.fields_text body, lines, List.cons_append, hls, ← hbody, hp, bodyLine, if_pos hm,
          List.getLast?_eq_some_getLast (hne hm)]
        exact List.mem_cons_of_mem _ (List.getLast_mem _)
      exact ⟨ne_nil_of_mem_fields hmem, not_infix_of_mem_fields (by decide) hmem⟩
  · intro hb
    have hfits : BodyFits h.method body := by rwa [BodyFits, if_pos hm]
    exact ⟨_, h.parse_text hfits, rfl, rfl⟩

/-- A body of one line is kept apart from the headers. -/
theorem framed_iff_line : Framed (HttpParser.new .v11) postHead (bytes "c") :=
  (framed_iff (.new .v11) postHead rfl (bytes "c")).2 (by decide)

/-- An empty body turns the last header into the body, and the first line of a
body of two lines becomes a header. -/
theorem not_framed :
    ¬ Framed (HttpParser.new .v11) postHead [] ∧
      ¬ Framed (HttpParser.new .v11) postHead (bytes "X: y\r\nz") := by
  constructor
  · rintro ⟨r, hr, hheaders, -⟩
    have hpost : ((HttpParser.new .v11).requestFromBuffer
        (postHead.head ++ (crlf ++ (crlf ++ [])))).2 =
          .ok ⟨bytes "/", .v11, .post, [], bytes "A: b"⟩ := by decide
    rw [hpost, Except.ok.injEq] at hr
    subst hr
    exact absurd hheaders (by decide)
  · rintro ⟨r, hr, hheaders, -⟩
    have hpost : ((HttpParser.new .v11).requestFromBuffer
        (postHead.head ++ (crlf ++ (crlf ++ bytes "X: y\r\nz")))).2 =
          .ok ⟨bytes "/", .v11, .post,
            [⟨bytes "A", bytes "b"⟩, ⟨bytes "X", bytes "y"⟩], bytes "z"⟩ := by decide
    rw [hpost, Except.ok.injEq] at hr
    subst hr
    exact absurd hheaders (by decide)

end RequestHead

end WebServer
