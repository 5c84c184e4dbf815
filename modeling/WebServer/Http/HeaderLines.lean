import WebServer.Http.ParserHistory

/-!
# What becomes of a header line

`RequestFromBuffer` cuts a line at its first colon and takes the value from the second byte
behind it, whether the first one is a space or not, and whether there is a colon or not.

* `cutHeader_of_notMem`, `cutHeader_append` — what the two shapes of lines become.
* `HttpParser.parse_fieldLines` — the headers of a request, line by line.
* `HttpParser.keepsHeaders_iff` — when no header is invented or damaged.
-/

namespace WebServer

open Separator

/-! ## Lines -/

/-- The line spells the header: `key ':' ws value`, where `ws` are spaces. -/
def Spells (line : ByteString) (h : HttpHeader) : Prop :=
  ∃ ws : ByteString, (∀ c ∈ ws, c = space) ∧ colon ∉ h.key ∧
    line = h.key ++ colon :: (ws ++ h.value)

/-- The first colon of the line is followed by a space. -/
def Spaced (line : ByteString) : Prop :=
  ∃ key value, colon ∉ key ∧ line = key ++ colon :: space :: value

/-- It is followed by one space and no other. -/
def SpacedOnce (line : ByteString) : Prop :=
  ∃ key value, colon ∉ key ∧ line = key ++ colon :: space :: value ∧ value.head? ≠ some space

/-- A line without a colon becomes a header all the same: its key is the line, and its value
what `npos` leaves of it. -/
theorem cutHeader_of_notMem {line : ByteString} (h : colon ∉ line) :
    cutHeader line = ⟨line, line.drop 1⟩ := by
  have hnone : leftmost [colon] line = none := leftmost_singleton_eq_none_iff.2 h
  have hright : rightStart line [colon] = 1 := by
    rw [rightStart, find_zero, hnone]
    rfl
  rw [cutHeader, hright, hnone]

/-- The byte behind the first colon is left out. -/
theorem cutHeader_append {key : ByteString} (h : colon ∉ key) (rest : ByteString) :
    cutHeader (key ++ colon :: rest) = ⟨key, rest.drop 1⟩ := by
  have hsome : leftmost [colon] (key ++ colon :: rest) = some key.length :=
    leftmost_singleton h rest
  have hright : rightStart (key ++ colon :: rest) [colon] = key.length + 2 := by
    rw [rightStart, find_zero, hsome]
    rfl
  have hdrop : (key ++ colon :: rest).drop (key.length + 2) = rest.drop 1 := by
    rw [← List.drop_drop, List.drop_left]
    rfl
  rw [cutHeader, hright, hsome, hdrop]
  exact congrArg (HttpHeader.mk · _) List.take_left

/-- The first colon is where it is. -/
theorem eq_of_append_colon {key key' rest rest' : ByteString} (h : colon ∉ key)
    (h' : colon ∉ key') (heq : key ++ colon :: rest = key' ++ colon :: rest') :
    key = key' ∧ rest = rest' := by
  have hlength := leftmost_singleton h rest
  rw [heq, leftmost_singleton h' rest', Option.some.injEq] at hlength
  obtain ⟨hkey, hrest⟩ := List.append_inj heq hlength.symm
  exact ⟨hkey, (List.cons.inj hrest).2⟩

/-- A line that can be cut at a colon has a byte behind it. -/
theorem exists_of_cuttable {line : ByteString} (hc : Cuttable line) (hmem : colon ∈ line) :
    ∃ key c rest, colon ∉ key ∧ line = key ++ colon :: c :: rest := by
  obtain ⟨key, rest, rfl, hkey⟩ := List.eq_append_cons_of_mem hmem
  cases rest with
  | nil => exact absurd hc ((not_cuttable_iff (List.ne_nil_of_mem hmem)).2 ⟨key, hkey, rfl⟩)
  | cons c rest => exact ⟨key, c, rest, hkey, rfl⟩

/-- Behind a colon and a space, nothing is lost. -/
theorem spells_of_spaced {line : ByteString} (h : Spaced line) : Spells line (cutHeader line) := by
  obtain ⟨key, value, hkey, rfl⟩ := h
  rw [cutHeader_append hkey]
  refine ⟨[space], fun c hc => List.mem_singleton.1 hc, hkey, rfl⟩

/-! ## Requests -/

/-- The lines of a buffer that become headers. -/
def fieldLines (buffer : ByteString) : List ByteString :=
  match split buffer crlf, methodToken buffer with
  | .ok (_ :: lines), some token => headerLines (methodOf token) lines
  | _, _ => []

theorem fieldLines_eq {buffer path : ByteString} {m : HttpMethod} {lines : List ByteString}
    (h : HttpParser.startLineOf buffer = .ok (m, path, lines)) :
    fieldLines buffer = headerLines m lines := by
  obtain ⟨startLine, token, rest, hlines, hwords, rfl⟩ := HttpParser.startLineOf_eq_ok_iff.1 h
  have htoken : methodToken buffer = some token := by
    rw [methodToken, startWords, hlines]
    simp only [hwords]
    rfl
  rw [fieldLines, hlines, htoken]

/-- They are lines of the buffer. -/
theorem mem_fields_of_mem_fieldLines {buffer line : ByteString} (h : line ∈ fieldLines buffer) :
    line ∈ fields crlf buffer := by
  rw [fieldLines, split_crlf] at h
  cases hlines : fields crlf buffer with
  | nil =>
    rw [hlines] at h
    cases h
  | cons startLine lines =>
    rw [hlines] at h
    cases htoken : methodToken buffer with
    | none =>
      rw [htoken] at h
      cases h
    | some token =>
      rw [htoken] at h
      have hmem : line ∈ headerLines (methodOf token) lines := h
      rw [headerLines] at hmem
      split_ifs at hmem
      · exact List.mem_cons_of_mem _ (List.mem_of_mem_dropLast hmem)
      · exact List.mem_cons_of_mem _ hmem

namespace HttpParser

/-- The headers of a request, line by line. -/
theorem parse_fieldLines {buffer : ByteString} {r : HttpRequest} (h : parse buffer = .ok r) :
    r.headers = (fieldLines buffer).map cutHeader ∧ ∀ line ∈ fieldLines buffer, Cuttable line := by
  rcases parse_cases buffer with ⟨-, hp⟩ | ⟨-, -, hp⟩ | ⟨hparses, m, path, lines, hs, hp, -⟩
  · rw [hp] at h
    cases h
  · rw [hp] at h
    cases h
  · rw [hp, Except.ok.injEq] at h
    subst h
    obtain ⟨startLine, lines', token, path', rest, hl, ht, -, hall⟩ := hparses
    have hs' := startLineOf_eq_ok_iff.2 ⟨startLine, token, rest, hl, ht, rfl⟩
    refine ⟨by rw [fieldLines_eq hs], ?_⟩
    rwa [fieldLines_eq hs']

/-- The headers of the request are spelled by lines of the buffer. -/
structure KeepsHeaders (buffer : ByteString) (r : HttpRequest) : Prop where
  spelled : ∀ h ∈ r.headers, ∃ line ∈ fields crlf buffer, Spells line h
  /-- A line without a colon does not yield a header. -/
  colon_mem : ∀ line ∈ fieldLines buffer, ∀ h, readHeader line = .ok h → colon ∈ line
  /-- A value that begins right behind the colon is not cut short. -/
  value_eq : ∀ line ∈ fieldLines buffer, ∀ h, readHeader line = .ok h → ∀ key c rest,
    colon ∉ key → line = key ++ colon :: c :: rest → c ≠ space → h.value = c :: rest

/-- Lines with a colon and a space are kept. -/
theorem keepsHeaders_of_spaced {buffer : ByteString} {r : HttpRequest}
    (h : parse buffer = .ok r) (hall : ∀ line ∈ fieldLines buffer, Spaced line) :
    KeepsHeaders buffer r where
  spelled := by
    intro header hheader
    rw [(parse_fieldLines h).1] at hheader
    obtain ⟨line, hline, rfl⟩ := List.mem_map.1 hheader
    exact ⟨line, mem_fields_of_mem_fieldLines hline, spells_of_spaced (hall line hline)⟩
  colon_mem := by
    intro line hline _ _
    obtain ⟨key, value, -, rfl⟩ := hall line hline
    exact List.mem_append_right _ List.mem_cons_self
  value_eq := by
    intro line hline _ _ key c rest hkey hcut hc
    obtain ⟨key', value, hkey', rfl⟩ := hall line hline
    obtain ⟨-, hrest⟩ := eq_of_append_colon hkey' hkey hcut
    exact absurd (List.cons.inj hrest).1.symm hc

/-- Lines that are kept have a colon and a space. -/
theorem spaced_of_keepsHeaders {buffer : ByteString} {r : HttpRequest}
    (h : parse buffer = .ok r) (hkeeps : KeepsHeaders buffer r) :
    ∀ line ∈ fieldLines buffer, Spaced line := by
  intro line hline
  have hcuttable := (parse_fieldLines h).2 line hline
  have hread : readHeader line = .ok (cutHeader line) := by
    rw [readHeader_eq, if_pos hcuttable]
  obtain ⟨key, c, rest, hkey, rfl⟩ :=
    exists_of_cuttable hcuttable (hkeeps.colon_mem line hline _ hread)
  by_cases hc : c = space
  · exact ⟨key, rest, hkey, by rw [hc]⟩
  · have hvalue := hkeeps.value_eq _ hline _ hread key c rest hkey rfl hc
    rw [cutHeader_append hkey] at hvalue
    exact absurd (congrArg List.length hvalue) (by simp)

/-- No value begins with a space exactly when no second one follows the colon. -/
theorem spacedOnce_iff {line : ByteString} :
    SpacedOnce line ↔ Spaced line ∧ (cutHeader line).value.head? ≠ some space := by
  constructor
  · rintro ⟨key, value, hkey, rfl, hvalue⟩
    refine ⟨⟨key, value, hkey, rfl⟩, ?_⟩
    rwa [cutHeader_append hkey]
  · rintro ⟨⟨key, value, hkey, rfl⟩, hvalue⟩
    rw [cutHeader_append hkey] at hvalue
    exact ⟨key, value, hkey, rfl, hvalue⟩

theorem head_value_iff {buffer : ByteString} {r : HttpRequest} (h : parse buffer = .ok r) :
    (∀ header ∈ r.headers, header.value.head? ≠ some space) ↔
      ∀ line ∈ fieldLines buffer, (cutHeader line).value.head? ≠ some space := by
  rw [(parse_fieldLines h).1, List.forall_mem_map]

/-- **When no header is invented or damaged**, whatever was parsed before: in all lines that
become headers the first colon is followed by a space.  If, moreover, no value is to begin with
a space, it is followed by one and no other. -/
theorem keepsHeaders_iff (protocol : HttpProtocol) (history : List ByteString)
    (buffer : ByteString) :
    ((∀ r, (((new protocol).parseAll history).requestFromBuffer buffer).2 = .ok r →
          KeepsHeaders buffer r) ↔
        (Parses buffer → ∀ line ∈ fieldLines buffer, Spaced line)) ∧
      ((∀ r, (((new protocol).parseAll history).requestFromBuffer buffer).2 = .ok r →
          KeepsHeaders buffer r ∧ ∀ h ∈ r.headers, h.value.head? ≠ some space) ↔
        (Parses buffer → ∀ line ∈ fieldLines buffer, SpacedOnce line)) := by
  have hhistory := reachable_parseAll (.new protocol) history
  rw [hhistory.requestFromBuffer_snd, ← parse_ok_iff]
  simp only [forall_exists_index]
  constructor
  · refine forall₂_congr fun r hr => ?_
    exact ⟨spaced_of_keepsHeaders hr, keepsHeaders_of_spaced hr⟩
  · refine forall₂_congr fun r hr => ?_
    simp only [spacedOnce_iff, forall₂_and]
    rw [head_value_iff hr]
    exact and_congr_left fun _ => ⟨spaced_of_keepsHeaders hr, keepsHeaders_of_spaced hr⟩

/-- A line without a colon yields a header, and one without a space loses a byte. -/
theorem not_keepsHeaders :
    (∃ r, ((new .v11).requestFromBuffer (bytes "GET / HTTP/1.1\r\nabc\r\n\r\n")).2 = .ok r ∧
        r.headers = [⟨bytes "abc", bytes "bc"⟩] ∧
        ¬ KeepsHeaders (bytes "GET / HTTP/1.1\r\nabc\r\n\r\n") r) ∧
      ∃ r, ((new .v11).requestFromBuffer (bytes "GET / HTTP/1.1\r\nA:bc\r\n\r\n")).2 = .ok r ∧
        r.headers = [⟨bytes "A", bytes "c"⟩] ∧
        ¬ KeepsHeaders (bytes "GET / HTTP/1.1\r\nA:bc\r\n\r\n") r := by
  refine ⟨⟨⟨bytes "/", .v11, .get, [⟨bytes "abc", bytes "bc"⟩], []⟩, by decide, rfl, fun h => ?_⟩,
    ⟨⟨bytes "/", .v11, .get, [⟨bytes "A", bytes "c"⟩], []⟩, by decide, rfl, fun h => ?_⟩⟩
  · have hcolon := h.colon_mem (bytes "abc") (by decide) ⟨bytes "abc", bytes "bc"⟩ (by decide)
    exact absurd hcolon (by decide)
  · have hvalue := h.value_eq (bytes "A:bc") (by decide) ⟨bytes "A", bytes "c"⟩ (by decide)
      (bytes "A") 98 (bytes "c") (by decide) (by decide) (by decide)
    exact absurd hvalue (by decide)

end HttpParser

end WebServer
