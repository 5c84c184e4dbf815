import WebServer.Http.Message

/-!
# What a client reads in a rendered response

`BufferFromResponse` puts a head of fixed shape in front of the body.  A client cuts
the text at the first blank line, reads the lines above it, and takes as many bytes
below it as the `Content-Length` line announces.

* `readDecimal_decimal` — the number the server prints is the one a client reads.
* `HttpResponse.rendered` — whatever the body, the client finds the head the server
  meant, one `Content-Length` line with the right number, and the body.
* `HttpResponse.handsOverAll_iff` — the length field of the buffer has 16 bits: the
  channel is given the whole text exactly when head and body have less than 2^16 bytes.
-/

namespace WebServer

/-! ## Decimal numbers -/

/-- `0` to `9`. -/
def isDigit (b : UInt8) : Bool := 48 ≤ b.toNat && b.toNat ≤ 57

/-- The number a text of digits stands for. -/
def readDecimal (text : ByteString) : Option ℕ :=
  if text ≠ [] ∧ text.all isDigit then
    some (text.foldl (fun n b => 10 * n + (b.toNat - 48)) 0)
  else none

/-- What a stream prints for a number. -/
def decimal (n : ℕ) : ByteString := bytes (toString n)

theorem decimal_eq (n : ℕ) :
    decimal n = (Nat.toDigits 10 n).map fun c => UInt8.ofNat c.toNat := by
  rw [decimal, bytes, Nat.toString_eq_ofList_toDigits, String.toList_ofList]

theorem decimal_ne_nil (n : ℕ) : decimal n ≠ [] := by
  rw [decimal_eq]
  simp

/-- A digit is the same number as a character and as a byte. -/
theorem toNat_digit {n : ℕ} {c : Char} (hc : c ∈ Nat.toDigits 10 n) :
    (UInt8.ofNat c.toNat).toNat = c.toNat ∧ 48 ≤ c.toNat ∧ c.toNat ≤ 57 := by
  have hdigit := Nat.isDigit_of_mem_toDigits (by decide) (by decide) hc
  obtain ⟨hlo, hhi⟩ := Char.isDigit_iff_toNat.1 hdigit
  have hlo' : 48 ≤ c.toNat := hlo
  have hhi' : c.toNat ≤ 57 := hhi
  refine ⟨?_, hlo', hhi'⟩
  rw [UInt8.toNat_ofNat']
  omega

theorem isDigit_of_mem_decimal {n : ℕ} {b : UInt8} (hb : b ∈ decimal n) : isDigit b = true := by
  rw [decimal_eq, List.mem_map] at hb
  obtain ⟨c, hc, rfl⟩ := hb
  obtain ⟨heq, hlo, hhi⟩ := toNat_digit hc
  simp [isDigit, heq, hlo, hhi]

/-- **A printed number is read back.** -/
theorem readDecimal_decimal (n : ℕ) : readDecimal (decimal n) = some n := by
  have hall : (decimal n).all isDigit := List.all_eq_true.2 fun _ hb => isDigit_of_mem_decimal hb
  rw [readDecimal, if_pos ⟨decimal_ne_nil n, hall⟩, Option.some.injEq]
  calc (decimal n).foldl (fun n b => 10 * n + (b.toNat - 48)) 0
      = (Nat.toDigits 10 n).foldl (fun n c => 10 * n + ((UInt8.ofNat c.toNat).toNat - 48)) 0 := by
        rw [decimal_eq, List.foldl_map]
    _ = (Nat.toDigits 10 n).foldl (fun n c => 10 * n + (c.toNat - '0'.toNat)) 0 := by
        apply List.foldl_ext
        intro k c hc
        rw [(toNat_digit hc).1]
        rfl
    _ = n := by
        rw [← Nat.ofDigitChars_eq_foldl, Nat.ofDigitChars_ten_toDigits]

namespace HttpResponse

/-! ## The head -/

/-- The first line. -/
def statusLine (protocol : HttpProtocol) (code : HttpStatusCode) : ByteString :=
  bytes "HTTP/" ++ getReadableProtocol protocol ++ bytes " " ++ getReadableStatusCode code

/-- The header lines that are the same in every response. -/
def fixedLines : List ByteString :=
  [bytes "Date: Mon, 16 Sep 2019 09:10:10 GMT", bytes "Server: cpp-webserver-eventdriven-1.0",
    bytes "Connection: Keep-Alive", bytes "Content-Type: application/json"]

/-- The line that announces the body. -/
def contentLengthLine (length : ℕ) : ByteString := bytes "Content-Length: " ++ decimal length

/-- All the lines above the blank one. -/
def headLines (protocol : HttpProtocol) (code : HttpStatusCode) (length : ℕ) : List ByteString :=
  statusLine protocol code :: (fixedLines ++ [contentLengthLine length])

/-- The name of a header line, in small letters. -/
def headerName (line : ByteString) : ByteString :=
  (line.takeWhile (· ≠ colon)).map fun b => if 65 ≤ b ∧ b ≤ 90 then b + 32 else b

/-- The value of a header line, without the blanks in front of it. -/
def headerValue (line : ByteString) : ByteString :=
  ((line.dropWhile (· ≠ colon)).drop 1).dropWhile (· = space)

/-- The values of the `Content-Length` lines among some lines. -/
def contentLengths (lines : List ByteString) : List (Option ℕ) :=
  (lines.filter fun line => headerName line = bytes "content-length").map fun line =>
    readDecimal (headerValue line)

theorem responseText_eq (response : HttpResponse) :
    responseText response =
      crlf.intercalate (headLines response.protocol response.code response.body.length) ++
        (crlf ++ crlf ++ response.body) := by
  simp [responseText, headLines, fixedLines, statusLine, contentLengthLine, decimal]

theorem cr_not_mem_decimal (n : ℕ) : cr ∉ decimal n := fun h =>
  absurd (isDigit_of_mem_decimal h) (by decide)

theorem cr_not_mem_getReadableProtocol (protocol : HttpProtocol) :
    cr ∉ getReadableProtocol protocol := by
  cases protocol <;> decide

theorem cr_not_mem_getReadableStatusCode (code : HttpStatusCode) :
    cr ∉ getReadableStatusCode code := by
  unfold getReadableStatusCode
  split <;> decide

theorem cr_not_mem_statusLine (protocol : HttpProtocol) (code : HttpStatusCode) :
    cr ∉ statusLine protocol code := by
  simp only [statusLine, List.mem_append, not_or]
  exact ⟨⟨⟨by decide, cr_not_mem_getReadableProtocol protocol⟩, by decide⟩,
    cr_not_mem_getReadableStatusCode code⟩

theorem cr_not_mem_fixedLines : ∀ line ∈ fixedLines, cr ∉ line := by decide

theorem ne_nil_of_mem_fixedLines : ∀ line ∈ fixedLines, line ≠ [] := by decide

theorem cr_not_mem_headLines {protocol : HttpProtocol} {code : HttpStatusCode} {length : ℕ} :
    ∀ line ∈ headLines protocol code length, cr ∉ line := by
  intro line hline
  rcases List.mem_cons.1 hline with rfl | hline
  · exact cr_not_mem_statusLine protocol code
  · rcases List.mem_append.1 hline with hline | hline
    · exact cr_not_mem_fixedLines line hline
    · rw [List.mem_singleton.1 hline, contentLengthLine, List.mem_append, not_or]
      exact ⟨by decide, cr_not_mem_decimal length⟩

theorem ne_nil_of_mem_headLines {protocol : HttpProtocol} {code : HttpStatusCode} {length : ℕ} :
    ∀ line ∈ headLines protocol code length, line ≠ [] := by
  intro line hline
  rcases List.mem_cons.1 hline with rfl | hline
  · exact List.cons_ne_nil _ _
  · rcases List.mem_append.1 hline with hline | hline
    · exact ne_nil_of_mem_fixedLines line hline
    · rw [List.mem_singleton.1 hline]
      exact List.cons_ne_nil _ _

theorem headerName_statusLine (protocol : HttpProtocol) (code : HttpStatusCode) :
    headerName (statusLine protocol code) ≠ bytes "content-length" := by
  intro h
  exact absurd (congrArg List.head? h) (by simp [headerName, statusLine, bytes, colon])

theorem headerName_contentLengthLine (length : ℕ) :
    headerName (contentLengthLine length) = bytes "content-length" := rfl

theorem headerValue_contentLengthLine (length : ℕ) :
    headerValue (contentLengthLine length) = decimal length := by
  show (decimal length).dropWhile (· = space) = decimal length
  obtain ⟨b, bs, hb⟩ := List.exists_cons_of_ne_nil (decimal_ne_nil length)
  have hdigit : isDigit b = true := isDigit_of_mem_decimal (n := length) (by simp [hb])
  have hspace : b ≠ space := by
    rintro rfl
    exact absurd hdigit (by decide)
  rw [hb, List.dropWhile_cons_of_neg (by simpa using hspace)]

/-- One line announces a length, and it is the right one. -/
theorem contentLengths_headLines (protocol : HttpProtocol) (code : HttpStatusCode)
    (length : ℕ) : contentLengths (headLines protocol code length) = [some length] := by
  have hfixed : fixedLines.filter (fun line => headerName line = bytes "content-length") = [] := by
    decide
  rw [contentLengths, headLines,
    List.filter_cons_of_neg (by simpa using headerName_statusLine protocol code),
    List.filter_append, hfixed, List.nil_append,
    List.filter_cons_of_pos (by simpa using headerName_contentLengthLine length),
    List.filter_nil, List.map_cons, List.map_nil, headerValue_contentLengthLine,
    readDecimal_decimal]

/-- The first blank line is the one below the head. -/
theorem leftmost_bufferFromResponse (response : HttpResponse) :
    Separator.leftmost (crlf ++ crlf) (bufferFromResponse response).data =
      some (crlf.intercalate
        (headLines response.protocol response.code response.body.length)).length := by
  rw [bufferFromResponse, responseText_eq]
  exact Separator.leftmost_block (by decide) ne_nil_of_mem_headLines cr_not_mem_headLines _

/-- The lines of the head are read back. -/
theorem pieces_headLines (protocol : HttpProtocol) (code : HttpStatusCode) (length : ℕ) :
    Separator.pieces crlf (crlf.intercalate (headLines protocol code length)) =
      headLines protocol code length :=
  Separator.pieces_intercalate (List.cons_ne_nil _ _) cr_not_mem_headLines

/-- **Every response is framed.**  The first blank line of the text is the one below the
head; below it comes the body, byte for byte; above it are the lines that protocol, code
and length determine, with one `Content-Length` line, which is right. -/
theorem rendered (response : HttpResponse) :
    ∃ head, Separator.leftmost (crlf ++ crlf) (bufferFromResponse response).data =
        some head.length ∧
      (bufferFromResponse response).data = head ++ (crlf ++ crlf ++ response.body) ∧
      Separator.pieces crlf head =
        headLines response.protocol response.code response.body.length ∧
      contentLengths (Separator.pieces crlf head) = [some response.body.length] := by
  refine ⟨crlf.intercalate (headLines response.protocol response.code response.body.length),
    leftmost_bufferFromResponse response, responseText_eq response, pieces_headLines _ _ _, ?_⟩
  rw [pieces_headLines]
  exact contentLengths_headLines _ _ _

/-! ## The length field -/

/-- The call of `send` or `tls_write` in a channel's `Write`: a block and a number of bytes. -/
def writeCall (buffer : Buffer) : ByteString × ℕ := (buffer.data, buffer.size.toNat)

/-- The text down to the blank line. -/
def headerBlock (response : HttpResponse) : ByteString :=
  crlf.intercalate (headLines response.protocol response.code response.body.length) ++
    (crlf ++ crlf)

/-- The channel is asked to send the whole text: the head and the announced bytes. -/
def HandsOverAll (response : HttpResponse) : Prop :=
  (bufferFromResponse response).size.toNat = (responseText response).length ∧
    (writeCall (bufferFromResponse response)).2 =
      (headerBlock response).length + response.body.length

theorem length_getReadableProtocol (protocol : HttpProtocol) :
    (getReadableProtocol protocol).length = 3 := by
  cases protocol <;> rfl

theorem length_headerBlock (response : HttpResponse) :
    (headerBlock response).length =
      163 + (getReadableStatusCode response.code).length +
        (decimal response.body.length).length := by
  have hlit : (bytes "HTTP/").length = 5 ∧ (bytes " ").length = 1 ∧
      (bytes "Content-Length: ").length = 16 ∧ crlf.length = 2 ∧
      (bytes "Date: Mon, 16 Sep 2019 09:10:10 GMT").length = 35 ∧
      (bytes "Server: cpp-webserver-eventdriven-1.0").length = 37 ∧
      (bytes "Connection: Keep-Alive").length = 22 ∧
      (bytes "Content-Type: application/json").length = 30 := by decide
  simp only [headerBlock, headLines, fixedLines, List.cons_append, List.nil_append,
    Separator.intercalate_cons_cons, Separator.intercalate_singleton, List.length_append,
    statusLine, contentLengthLine, length_getReadableProtocol, hlit]
  omega

theorem length_responseText (response : HttpResponse) :
    (responseText response).length = (headerBlock response).length + response.body.length := by
  rw [responseText_eq, headerBlock, ← List.append_assoc, List.length_append]

theorem handsOverAll_iff_length {response : HttpResponse} :
    HandsOverAll response ↔ (responseText response).length < 65536 := by
  have hsize : (bufferFromResponse response).size.toNat =
      (responseText response).length % 65536 := UInt16.toNat_ofNat'
  rw [HandsOverAll, writeCall, ← length_responseText, hsize, and_self]
  omega

/-- **The whole response reaches the transport exactly when it has less than 2^16 bytes**:
163 bytes of every head, the text of the status, the digits of the length, and the body. -/
theorem handsOverAll_iff {response : HttpResponse} :
    HandsOverAll response ↔
      163 + (getReadableStatusCode response.code).length +
        (decimal response.body.length).length + response.body.length < 65536 := by
  rw [handsOverAll_iff_length, length_responseText, length_headerBlock]

/-- A body of 65536 bytes: the channel is asked to send the first 174 bytes of the text. -/
theorem not_handsOverAll :
    ¬ HandsOverAll ⟨.ok, .v11, [], List.replicate 65536 0⟩ ∧
      (bufferFromResponse ⟨.ok, .v11, [], List.replicate 65536 0⟩).size = 174 := by
  have hlen : ∀ response : HttpResponse, response.code = .ok → response.body.length = 65536 →
      (responseText response).length = 65710 := by
    intro response hcode hbody
    rw [length_responseText, length_headerBlock, hcode, hbody]
    decide
  have hlong := hlen ⟨.ok, .v11, [], List.replicate 65536 0⟩ rfl List.length_replicate
  refine ⟨fun h => ?_, ?_⟩
  · have hshort := handsOverAll_iff_length.1 h
    omega
  · show UInt16.ofNat (responseText _).length = 174
    rw [hlong]
    decide

end HttpResponse

end WebServer
