import WebServer.Http.Parser

/-!
# What the parser computes

* `split_eq`, `split_leftmost` — `split` ends, never calls `substr` out of range, and
  returns the non-empty fields of the string.
* `readHeader_eq`, `readHeaders_eq_ok_iff`, `readHeaders_error` — the
  header loop: a line is *cuttable* unless its first colon is its last byte.
* `HttpParser.Intact` — the method table, whatever was parsed before, answers as
  a new one does (`intact_of_reachable`).
* `WellSplit`, `Parses` — the two conditions on a buffer that decide how a parse
  ends (`parse_ok_iff`, `safeParse_iff`).
-/

namespace WebServer

open Separator

/-! ## `split` -/

theorem find_of_le {str delim : ByteString} {prev : ℕ} (h : prev ≤ str.length) :
    find str delim prev = (leftmost delim (str.drop prev)).map (prev + ·) := by
  rw [find, if_pos h]

/-- **The loop of `split`**, from any position inside the string on, adds the
fields of the rest of the string to the tokens. -/
theorem splitLoop_eq {str delim : ByteString} (hd : delim ≠ []) :
    ∀ (fuel prev : ℕ) (tokens : List ByteString), prev ≤ str.length →
      str.length - prev < fuel →
      splitLoop str delim fuel prev tokens = .ok (tokens ++ fields delim (str.drop prev)) := by
  have hpos : 0 < delim.length := List.length_pos_iff.2 hd
  intro fuel
  induction fuel with
  | zero => intro prev tokens _ hfuel; omega
  | succ fuel ih =>
    intro prev tokens hprev hfuel
    rw [splitLoop, find_of_le hprev]
    cases hl : leftmost delim (str.drop prev) with
    | none =>
      -- no delimiter is left: the rest of the string is the last token
      have htake : (str.drop prev).take (str.length - prev) = str.drop prev := by
        rw [List.take_of_length_le (by simp)]
      simp only [Option.map_none, Option.getD_none, substr_of_le hprev, htake, lt_irrefl,
        false_and, if_false]
      rw [fields_of_no_occurrence (leftmost_eq_none_iff.1 hl)]
      by_cases hs : str.drop prev = []
      · rw [if_pos hs, if_pos hs, List.append_nil]
      · rw [if_neg hs, if_neg hs]
    | some n =>
      have hle := leftmost_add_length_le hl
      rw [List.length_drop] at hle
      have hsub : prev + n - prev = n := by omega
      have hlt : prev + n < str.length := by omega
      simp only [Option.map_some, Option.getD_some, substr_of_le hprev, hsub, hlt, true_and]
      rw [fields_of_some hd hl, List.drop_drop, ← Nat.add_assoc]
      have htok : ∀ t : ByteString, (if t = [] then tokens else tokens ++ [t]) =
          tokens ++ if t = [] then [] else [t] := by
        intro t
        by_cases ht : t = [] <;> simp [ht]
      rw [htok, ← List.append_assoc]
      by_cases hmore : prev + n + delim.length < str.length
      · rw [if_pos hmore, ih _ _ (by omega) (by omega)]
      · -- the delimiter ended the string
        have hend : str.drop (prev + n + delim.length) = [] :=
          List.drop_eq_nil_of_le (by omega)
        rw [if_neg hmore, hend, fields_nil hd, List.append_nil]

/-- **`split` computes the non-empty fields.** -/
theorem split_eq {delim : ByteString} (hd : delim ≠ []) (str : ByteString) :
    split str delim = .ok (fields delim str) := by
  rw [split, splitLoop_eq hd _ 0 [] (Nat.zero_le _) (by omega), List.nil_append, List.drop_zero]

/-- **The loop of `split` ends and returns the non-empty fields**, cut out at the leftmost
occurrences of the delimiter that do not overlap.  It would end with the exception of `substr`
if that were ever called with a start beyond the string. -/
theorem split_leftmost {delim : ByteString} (hd : delim ≠ []) (str : ByteString) :
    ∃ cuts tokens, (∀ is, LeftmostDisjoint delim str is ↔ is = cuts) ∧
      tokens = (cutAt delim str 0 cuts).filter (· ≠ []) ∧
      split str delim = .ok tokens ∧
      (∀ rounds, str.length < rounds → splitLoop str delim rounds 0 [] = .ok tokens) ∧
      (∀ token ∈ tokens, token ≠ [] ∧ ¬ delim <:+: token) ∧
      tokens.length ≤ cuts.length + 1 := by
  refine ⟨occurrences delim str, fields delim str, fun is => leftmostDisjoint_iff hd, ?_,
    split_eq hd str, fun rounds hrounds => ?_, fun token htoken => ?_, length_fields_le hd str⟩
  · rw [fields, pieces_eq_cutAt hd]
  · rw [splitLoop_eq hd rounds 0 [] (Nat.zero_le _) (by omega), List.nil_append, List.drop_zero]
  · exact ⟨ne_nil_of_mem_fields htoken, not_infix_of_mem_fields hd htoken⟩

/-- A delimiter that overlaps itself. -/
theorem split_leftmost_aa :
    ∃ cuts tokens, (∀ is, LeftmostDisjoint (bytes "aa") (bytes "baaab") is ↔ is = cuts) ∧
      split (bytes "baaab") (bytes "aa") = .ok tokens ∧ tokens.length ≤ cuts.length + 1 := by
  obtain ⟨cuts, tokens, hcuts, -, hsplit, -, -, hlength⟩ :=
    @split_leftmost (bytes "aa") (by decide) (bytes "baaab")
  exact ⟨cuts, tokens, hcuts, hsplit, hlength⟩

/-- The lines of a buffer. -/
theorem split_crlf (str : ByteString) : split str crlf = .ok (fields crlf str) :=
  split_eq (by decide) str

/-- The words of a line. -/
theorem split_space (str : ByteString) : split str [space] = .ok (fields [space] str) :=
  split_eq (by decide) str

/-! ## Header lines -/

/-- The line does not end with its first colon, so both halves can be cut out. -/
def Cuttable (line : ByteString) : Prop := rightStart line [colon] ≤ line.length

instance (line : ByteString) : Decidable (Cuttable line) :=
  inferInstanceAs (Decidable (_ ≤ _))

/-- The header a cuttable line stands for. -/
def cutHeader (line : ByteString) : HttpHeader where
  key := match leftmost [colon] line with
    | some pos => line.take pos
    | none => line
  value := line.drop (rightStart line [colon])

theorem readHeader_eq (line : ByteString) :
    readHeader line =
      if Cuttable line then .ok (cutHeader line) else .error (.thrown .outOfRange) := by
  have hleft : getLeftOfDelim line [colon] = .ok (cutHeader line).key := by
    rw [getLeftOfDelim, find_zero, cutHeader]
    cases leftmost [colon] line <;> simp [substr]
  rw [readHeader, hleft]
  by_cases h : Cuttable line
  · have hle : ¬ line.length < rightStart line [colon] := not_lt.2 h
    simp only [getRightOfDelim, substr, if_neg hle, if_pos h]
    rfl
  · have hlt : line.length < rightStart line [colon] := not_le.1 h
    simp only [getRightOfDelim, substr, if_pos hlt, if_neg h]

/-- A line cannot be cut exactly when its first colon is its last byte. -/
theorem not_cuttable_iff {line : ByteString} (hne : line ≠ []) :
    ¬ Cuttable line ↔ ∃ k, colon ∉ k ∧ line = k ++ [colon] := by
  unfold Cuttable rightStart
  rw [find_zero]
  cases h : leftmost [colon] line with
  | none =>
    have hc : colon ∉ line := leftmost_singleton_eq_none_iff.1 h
    have hlen : 0 < line.length := List.length_pos_iff.2 hne
    constructor
    · intro hn
      exact absurd (show (2 ^ 64 - 1 + 1 + 1) % 2 ^ 64 ≤ line.length by omega) hn
    · rintro ⟨k, -, rfl⟩
      exact absurd (by simp) hc
  | some pos =>
    have heq := eq_of_leftmost h
    have hle := leftmost_add_length_le h
    rw [List.length_singleton] at heq hle
    simp only [List.length_singleton]
    constructor
    · intro hn
      have hdrop : line.drop (pos + 1) = [] := List.drop_eq_nil_of_le (by omega)
      refine ⟨line.take pos, ?_, by rwa [hdrop] at heq⟩
      have := not_infix_take_leftmost (by simp) h
      rwa [List.singleton_infix_iff] at this
    · rintro ⟨k, hk, rfl⟩
      have hpos : pos = k.length := by
        have := (leftmost_singleton hk []).symm.trans h
        simpa using this.symm
      simp [hpos]

theorem readHeaders_eq_ok_iff {lines : List ByteString} {count : ℕ} {hs : HttpHeaders} :
    readHeaders lines count = .ok hs ↔
      count ≤ lines.length ∧ (∀ line ∈ lines.take count, Cuttable line) ∧
        hs = (lines.take count).map cutHeader := by
  induction lines generalizing count hs with
  | nil =>
    cases count with
    | zero => simp [readHeaders, eq_comm]
    | succ count => simp [readHeaders]
  | cons line lines ih =>
    cases count with
    | zero => simp [readHeaders, eq_comm]
    | succ count =>
      rw [readHeaders, readHeader_eq]
      by_cases hc : Cuttable line
      · rw [if_pos hc]
        cases hrest : readHeaders lines count with
        | error f =>
          simp only [reduceCtorEq, false_iff]
          rintro ⟨hle, hall, -⟩
          have := ih.2 ⟨by simpa using hle, fun l hl => hall l (by simp [hl]), rfl⟩
          rw [hrest] at this
          cases this
        | ok rest =>
          obtain ⟨hle, hall, hrest'⟩ := ih.1 hrest
          simp only [Except.ok.injEq, List.take_succ_cons, List.map_cons, List.length_cons,
            Nat.succ_le_succ_iff, List.forall_mem_cons]
          exact ⟨fun h => ⟨hle, ⟨hc, hall⟩, by rw [← h, hrest']⟩,
            fun h => by rw [h.2.2, hrest']⟩
      · rw [if_neg hc]
        simp only [reduceCtorEq, false_iff]
        rintro ⟨-, hall, -⟩
        exact hc (hall line (by simp))

/-- The header loop only leaves the deque when it is asked for too many rounds,
and it never does anything worse. -/
theorem readHeaders_error {lines : List ByteString} {count : ℕ} {f : Fault}
    (h : readHeaders lines count = .error f) (hle : count ≤ lines.length) :
    f = .thrown .outOfRange := by
  induction lines generalizing count with
  | nil =>
    cases count with
    | zero => cases h
    | succ count => simp at hle
  | cons line lines ih =>
    cases count with
    | zero => cases h
    | succ count =>
      rw [readHeaders, readHeader_eq] at h
      by_cases hc : Cuttable line
      · rw [if_pos hc] at h
        cases hrest : readHeaders lines count with
        | error g =>
          rw [hrest] at h
          cases h
          exact ih hrest (by simpa using hle)
        | ok rest => rw [hrest] at h; cases h
      · rw [if_neg hc] at h
        cases h
        rfl

/-- Asked for one round too many, it leaves an empty deque at once. -/
theorem readHeaders_nil {count : ℕ} (h : 0 < count) :
    readHeaders [] count = .error .outOfBounds := by
  obtain ⟨n, rfl⟩ : ∃ n, count = n + 1 := ⟨count - 1, by omega⟩
  rfl

theorem popFront_of_le {lines : List ByteString} {count : ℕ} (h : count ≤ lines.length) :
    popFront lines count = .ok (lines.drop count) := by
  induction lines generalizing count with
  | nil =>
    cases count with
    | zero => rfl
    | succ count => simp at h
  | cons line lines ih =>
    cases count with
    | zero => rfl
    | succ count => exact ih (by simpa using h)

/-- The lines `RequestFromBuffer` reads as headers: for a method with a body, all
but the last one. -/
def headerLines (method : HttpMethod) (lines : List ByteString) : List ByteString :=
  if requestHasBody method then lines.dropLast else lines

/-- The line it reads as the body. -/
def bodyLine (method : HttpMethod) (lines : List ByteString) : ByteString :=
  if requestHasBody method then lines.getLast?.getD [] else []

/-- Below the start line: without the one line a body method needs, the header
count wraps around and the loop leaves the deque. -/
theorem readFields_nil {method : HttpMethod} (hm : requestHasBody method = true)
    (path : ByteString) : readFields method path [] = .error .outOfBounds := by
  have hcount : sizeSub (List.length ([] : List ByteString)) 1 = 2 ^ 64 - 1 := rfl
  simp only [readFields, hm, if_true, hcount]
  rw [readHeaders_nil (by norm_num)]

/-- Below the start line, in all other cases. -/
theorem readFields_eq {method : HttpMethod} {lines : List ByteString}
    (h : requestHasBody method = true → lines ≠ []) (path : ByteString) :
    readFields method path lines =
      if ∀ line ∈ headerLines method lines, Cuttable line then
        .ok ⟨path, .v11, method, (headerLines method lines).map cutHeader, bodyLine method lines⟩
      else .error (.thrown .outOfRange) := by
  -- the rounds of the loop, and what is left of the deque after it
  obtain ⟨count, hcount, hle, htake, hrest⟩ : ∃ count,
      sizeSub lines.length (if requestHasBody method then 1 else 0) = count ∧
        count ≤ lines.length ∧ lines.take count = headerLines method lines ∧
        (lines.drop count).headD [] = bodyLine method lines := by
    cases hm : requestHasBody method with
    | false => exact ⟨lines.length, by simp [sizeSub], le_rfl, by simp [headerLines, hm],
        by simp [bodyLine, hm]⟩
    | true =>
      have hpos : 0 < lines.length := List.length_pos_iff.2 (h hm)
      refine ⟨lines.length - 1, by rw [if_pos rfl, sizeSub_of_le hpos], by omega, ?_, ?_⟩
      · rw [headerLines, if_pos hm, List.dropLast_eq_take]
      · rw [bodyLine, if_pos hm, List.drop_length_sub_one (h hm),
          List.getLast?_eq_some_getLast (h hm)]
        rfl
  simp only [readFields, hcount]
  by_cases hall : ∀ line ∈ headerLines method lines, Cuttable line
  · have hread : readHeaders lines count = .ok ((headerLines method lines).map cutHeader) :=
      readHeaders_eq_ok_iff.2 ⟨hle, by rwa [htake], by rw [htake]⟩
    have hlen : ((headerLines method lines).map cutHeader).length = count := by
      rw [List.length_map, ← htake, List.length_take, Nat.min_eq_left hle]
    rw [if_pos hall, hread]
    simp only [hlen, popFront_of_le hle, hrest]
  · rw [if_neg hall]
    cases hread : readHeaders lines count with
    | ok hs => exact absurd (htake ▸ (readHeaders_eq_ok_iff.1 hread).2.1) hall
    | error f => rw [readHeaders_error hread hle]

/-! ## The method table -/

/-- The method a token stands for: one of the nine, or else the default. -/
def methodOf (token : ByteString) : HttpMethod :=
  (allMethods.find? (methodName · = token)).getD default

@[simp] theorem methodOf_methodName (m : HttpMethod) : methodOf (methodName m) = m := by
  cases m <;> decide

namespace HttpParser

/-- The table answers as a new one does. -/
def Intact (p : HttpParser) : Prop :=
  ∀ token, (p.methodMapping.lookup token).getD default = methodOf token

theorem intact_new (protocol : HttpProtocol) : Intact (new protocol) := by
  intro token
  by_cases h : ∃ m, methodName m = token
  · obtain ⟨m, rfl⟩ := h
    rw [methodOf_methodName]
    cases m <;> rfl
  · simp only [not_exists] at h
    have hnone : allMethods.find? (methodName · = token) = none := by
      rw [List.find?_eq_none]
      intro m _
      simpa using h m
    have hne : ∀ m, token ≠ methodName m := fun m hm => h m hm.symm
    rw [methodOf, hnone, new, allMethods]
    simp [Finmap.lookup_insert_of_ne _ (hne _)]

/-- What the start line of a buffer says, whatever the parser has parsed before. -/
def startLineOf (buffer : ByteString) :
    Except Fault (HttpMethod × ByteString × List ByteString) :=
  match fields crlf buffer with
  | [] => .error .outOfBounds
  | startLine :: lines =>
    match fields [space] startLine with
    | stringMethod :: path :: _ => .ok (methodOf stringMethod, path, lines)
    | _ => .error .outOfBounds

theorem readStartLine_snd {p : HttpParser} (hp : p.Intact) (buffer : ByteString) :
    (p.readStartLine buffer).2 = startLineOf buffer := by
  rw [readStartLine, split_crlf, startLineOf]
  cases fields crlf buffer with
  | nil => rfl
  | cons startLine lines =>
    simp only [split_space]
    match fields [space] startLine with
    | [] => rfl
    | [_] => rfl
    | stringMethod :: path :: _ => simp [hp stringMethod]

theorem intact_readStartLine {p : HttpParser} (hp : p.Intact) (buffer : ByteString) :
    (p.readStartLine buffer).1.Intact := by
  rw [readStartLine, split_crlf]
  cases fields crlf buffer with
  | nil => exact hp
  | cons startLine lines =>
    simp only [split_space]
    match fields [space] startLine with
    | [] => exact hp
    | [_] => exact fun token => by simpa using hp token
    | _ :: _ :: _ => exact fun token => by simpa using hp token

/-- The result of `RequestFromBuffer`, whatever the parser has parsed before. -/
def parse (buffer : ByteString) : Except Fault HttpRequest :=
  match startLineOf buffer with
  | .error f => .error f
  | .ok (httpMethod, path, lines) => readFields httpMethod path lines

theorem requestFromBuffer_fst (p : HttpParser) (buffer : ByteString) :
    (p.requestFromBuffer buffer).1 = (p.readStartLine buffer).1 := by
  rw [requestFromBuffer]
  rcases p.readStartLine buffer with ⟨q, f | ⟨m, path, lines⟩⟩ <;> rfl

/-- **A parse does not depend on the parses before it.** -/
theorem requestFromBuffer_snd {p : HttpParser} (hp : p.Intact) (buffer : ByteString) :
    (p.requestFromBuffer buffer).2 = parse buffer := by
  rw [requestFromBuffer, parse, ← readStartLine_snd hp]
  rcases p.readStartLine buffer with ⟨q, f | ⟨m, path, lines⟩⟩ <;> rfl

theorem intact_requestFromBuffer {p : HttpParser} (hp : p.Intact) (buffer : ByteString) :
    (p.requestFromBuffer buffer).1.Intact := by
  rw [requestFromBuffer_fst]
  exact intact_readStartLine hp buffer

theorem intact_of_reachable {p : HttpParser} (h : p.Reachable) : p.Intact := by
  induction h with
  | new protocol => exact intact_new protocol
  | parse buffer _ ih => exact intact_requestFromBuffer ih buffer

/-- A parser with a history parses as a new one. -/
theorem Reachable.requestFromBuffer_snd {p : HttpParser} (h : p.Reachable) (buffer : ByteString) :
    (p.requestFromBuffer buffer).2 = HttpParser.parse buffer :=
  HttpParser.requestFromBuffer_snd (intact_of_reachable h) buffer

end HttpParser

/-! ## How a parse ends -/

/-- The buffer has a start line with a method token and a path, and a line below
it if the method is one with a body. -/
def WellSplit (buffer : ByteString) : Prop :=
  ∃ startLine lines stringMethod path rest,
    split buffer crlf = .ok (startLine :: lines) ∧
      split startLine [space] = .ok (stringMethod :: path :: rest) ∧
      (requestHasBody (methodOf stringMethod) = true → lines ≠ [])

/-- In addition, every header line can be cut at its colon. -/
def Parses (buffer : ByteString) : Prop :=
  ∃ startLine lines stringMethod path rest,
    split buffer crlf = .ok (startLine :: lines) ∧
      split startLine [space] = .ok (stringMethod :: path :: rest) ∧
      (requestHasBody (methodOf stringMethod) = true → lines ≠ []) ∧
      ∀ line ∈ headerLines (methodOf stringMethod) lines, Cuttable line

theorem wellSplit_of_parses {buffer : ByteString} (h : Parses buffer) : WellSplit buffer := by
  obtain ⟨startLine, lines, stringMethod, path, rest, hl, ht, hne, -⟩ := h
  exact ⟨startLine, lines, stringMethod, path, rest, hl, ht, hne⟩

namespace HttpParser

theorem startLineOf_eq_ok_iff {buffer : ByteString} {m : HttpMethod} {path : ByteString}
    {lines : List ByteString} :
    startLineOf buffer = .ok (m, path, lines) ↔
      ∃ startLine stringMethod rest, split buffer crlf = .ok (startLine :: lines) ∧
        split startLine [space] = .ok (stringMethod :: path :: rest) ∧
        m = methodOf stringMethod := by
  simp only [startLineOf, split_crlf, split_space, Except.ok.injEq]
  cases hl : fields crlf buffer with
  | nil => simp
  | cons startLine lines' =>
    simp only [List.cons.injEq]
    rcases ht : fields [space] startLine with _ | ⟨stringMethod, _ | ⟨path', rest⟩⟩
    · simp only [reduceCtorEq, false_iff]
      rintro ⟨s, t, r, ⟨rfl, -⟩, hs, -⟩
      simp [ht] at hs
    · simp only [reduceCtorEq, false_iff]
      rintro ⟨s, t, r, ⟨rfl, -⟩, hs, -⟩
      simp [ht] at hs
    · simp only [Except.ok.injEq, Prod.mk.injEq]
      constructor
      · rintro ⟨rfl, rfl, rfl⟩
        exact ⟨startLine, stringMethod, rest, ⟨rfl, rfl⟩, ht, rfl⟩
      · rintro ⟨s, t, r, ⟨rfl, rfl⟩, hs, rfl⟩
        rw [ht] at hs
        simp only [List.cons.injEq] at hs
        obtain ⟨rfl, rfl, -⟩ := hs
        exact ⟨rfl, rfl, rfl⟩

theorem startLineOf_error {buffer : ByteString} {f : Fault} (h : startLineOf buffer = .error f) :
    f = .outOfBounds := by
  rw [startLineOf] at h
  cases hl : fields crlf buffer with
  | nil => rw [hl] at h; cases h; rfl
  | cons startLine lines =>
    rw [hl] at h
    simp only at h
    split at h
    · cases h
    · cases h; rfl

/-- The three ways a parse can end. -/
theorem parse_cases (buffer : ByteString) :
    (¬ WellSplit buffer ∧ parse buffer = .error .outOfBounds) ∨
      (WellSplit buffer ∧ ¬ Parses buffer ∧ parse buffer = .error (.thrown .outOfRange)) ∨
      (Parses buffer ∧ ∃ m path lines, startLineOf buffer = .ok (m, path, lines) ∧
        parse buffer = .ok ⟨path, .v11, m, (headerLines m lines).map cutHeader, bodyLine m lines⟩ ∧
        (requestHasBody m = true → lines ≠ [])) := by
  cases hs : startLineOf buffer with
  | error f =>
    refine Or.inl ⟨?_, by rw [parse, hs, startLineOf_error hs]⟩
    rintro ⟨startLine, lines, stringMethod, path, rest, hl, ht, -⟩
    rw [startLineOf_eq_ok_iff.2 ⟨startLine, stringMethod, rest, hl, ht, rfl⟩] at hs
    cases hs
  | ok v =>
    obtain ⟨m, path, lines⟩ := v
    obtain ⟨startLine, stringMethod, rest, hl, ht, hm⟩ := startLineOf_eq_ok_iff.1 hs
    -- the decomposition of a buffer is unique
    have huniq : ∀ startLine' lines' stringMethod' path' rest',
        split buffer crlf = .ok (startLine' :: lines') →
        split startLine' [space] = .ok (stringMethod' :: path' :: rest') →
        lines' = lines ∧ methodOf stringMethod' = m := by
      intro startLine' lines' stringMethod' path' rest' hl' ht'
      have h := startLineOf_eq_ok_iff.2 ⟨startLine', stringMethod', rest', hl', ht', rfl⟩
      rw [hs, Except.ok.injEq, Prod.mk.injEq, Prod.mk.injEq] at h
      exact ⟨h.2.2.symm, h.1.symm⟩
    have hparse : parse buffer = readFields m path lines := by rw [parse, hs]
    by_cases hsafe : requestHasBody m = true → lines ≠ []
    · by_cases hall : ∀ line ∈ headerLines m lines, Cuttable line
      · refine Or.inr (Or.inr ⟨⟨startLine, lines, stringMethod, path, rest, hl, ht, ?_, ?_⟩,
          m, path, lines, rfl, ?_, hsafe⟩)
        · rwa [← hm]
        · rwa [← hm]
        · rw [hparse, readFields_eq hsafe, if_pos hall]
      · refine Or.inr (Or.inl ⟨⟨startLine, lines, stringMethod, path, rest, hl, ht, ?_⟩, ?_, ?_⟩)
        · rwa [← hm]
        · rintro ⟨startLine', lines', stringMethod', path', rest', hl', ht', -, hall'⟩
          obtain ⟨rfl, rfl⟩ := huniq _ _ _ _ _ hl' ht'
          exact hall hall'
        · rw [hparse, readFields_eq hsafe, if_neg hall]
    · refine Or.inl ⟨?_, ?_⟩
      · rintro ⟨startLine', lines', stringMethod', path', rest', hl', ht', hsafe'⟩
        obtain ⟨rfl, rfl⟩ := huniq _ _ _ _ _ hl' ht'
        exact hsafe hsafe'
      · simp only [Classical.not_imp, not_not] at hsafe
        rw [hparse, hsafe.2, readFields_nil hsafe.1]

theorem parse_outOfBounds_iff {buffer : ByteString} :
    parse buffer = .error .outOfBounds ↔ ¬ WellSplit buffer := by
  rcases parse_cases buffer with ⟨h, hp⟩ | ⟨h, -, hp⟩ | ⟨h, m, path, lines, -, hp, -⟩
  · simp [h, hp]
  · simp [h, hp]
  · simp [wellSplit_of_parses h, hp]

theorem parse_ok_iff {buffer : ByteString} :
    (∃ r, parse buffer = .ok r) ↔ Parses buffer := by
  rcases parse_cases buffer with ⟨h, hp⟩ | ⟨-, h, hp⟩ | ⟨h, m, path, lines, -, hp, -⟩
  · have hn : ¬ Parses buffer := fun hpm => h (wellSplit_of_parses hpm)
    simp [hn, hp]
  · simp [h, hp]
  · simp [h, hp]

/-! ## Memory safety -/

/-- The parse of a buffer only touches what is in its deques: it returns or throws
an exception of the standard library, and where it counts the header lines,
`lines.size() - (hasBody ? 1 : 0)` does not wrap around. -/
structure SafeParse (p : HttpParser) (buffer : ByteString) : Prop where
  ends : (∃ r, (p.requestFromBuffer buffer).2 = .ok r) ∨
    ∃ ex, (p.requestFromBuffer buffer).2 = .error (.thrown ex) ∧ ex.isStandard = true
  no_wrap : ∀ method path lines, (p.readStartLine buffer).2 = .ok (method, path, lines) →
    (if requestHasBody method then 1 else 0) ≤ lines.length

/-- **Exactly which buffers are parsed safely**: those with a start line of at
least two words, and with a line below it if the first word is `POST`, `PUT` or
`PATCH`. -/
theorem safeParse_iff {p : HttpParser} (hp : p.Reachable) (buffer : ByteString) :
    SafeParse p buffer ↔ WellSplit buffer := by
  have hi := intact_of_reachable hp
  constructor
  · intro h
    by_contra hn
    have hout := parse_outOfBounds_iff.2 hn
    rw [← requestFromBuffer_snd hi] at hout
    rcases h.ends with ⟨r, hr⟩ | ⟨ex, hex, -⟩
    · rw [hout] at hr
      cases hr
    · rw [hout] at hex
      cases hex
  · rintro hw
    refine ⟨?_, ?_⟩
    · rw [requestFromBuffer_snd hi]
      rcases parse_cases buffer with ⟨hn, -⟩ | ⟨-, -, hthrow⟩ | ⟨-, m, path, lines, -, hok, -⟩
      · exact absurd hw hn
      · exact Or.inr ⟨.outOfRange, hthrow, rfl⟩
      · exact Or.inl ⟨_, hok⟩
    · intro method path lines hs
      rw [readStartLine_snd hi] at hs
      by_cases hm : requestHasBody method = true
      · rw [if_pos hm]
        by_contra hlen
        have hnil : lines = [] := List.length_eq_zero_iff.1 (by omega)
        -- without a line for the body the header loop would have left the deque
        have hout : parse buffer = .error .outOfBounds := by
          rw [parse, hs, hnil]
          exact readFields_nil hm path
        exact parse_outOfBounds_iff.1 hout hw
      · rw [if_neg hm]
        exact Nat.zero_le _

/-- A request with a header line is parsed safely by a new parser. -/
theorem safeParse_iff_get :
    SafeParse (new .v11) (bytes "GET / HTTP/1.1\r\nHost: a\r\n\r\n") :=
  (safeParse_iff (.new .v11) _).2
    ⟨bytes "GET / HTTP/1.1", [bytes "Host: a"], bytes "GET", bytes "/", [bytes "HTTP/1.1"],
      by decide, by decide, by decide⟩

/-- A blank message, a start line without a path and a `POST` without a second
line all make the parser read outside of a deque. -/
theorem not_safeParse_short :
    ¬ SafeParse (new .v11) (bytes "\r\n") ∧ ¬ SafeParse (new .v11) (bytes "GET") ∧
      ¬ SafeParse (new .v11) (bytes "POST / HTTP/1.1\r\n\r\n") := by
  have key : ∀ b, ((new .v11).requestFromBuffer b).2 = .error .outOfBounds →
      ¬ SafeParse (new .v11) b := by
    rintro b hb ⟨⟨r, hr⟩ | ⟨ex, hex, -⟩, -⟩
    · rw [hb] at hr
      cases hr
    · rw [hb] at hex
      cases hex
  exact ⟨key _ (by decide), key _ (by decide), key _ (by decide)⟩

end HttpParser

end WebServer
