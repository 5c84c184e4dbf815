import WebServer.Runtime.Fault

/-!
# Requests and responses

`HttpHeader`, `HttpRequest` and `HttpResponse` with the accessors the server
calls, and `HttpParser::BufferFromResponse`, which renders a response into the
buffer a channel sends.
-/

namespace WebServer

/-- `HttpHeader`. -/
structure HttpHeader where
  key : ByteString
  value : ByteString
  deriving DecidableEq, Repr

/-- `HttpHeaders`. -/
abbrev HttpHeaders := List HttpHeader

/-! ## Requests -/

/-- `HttpRequest`.  Handlers only have its `const` accessors. -/
structure HttpRequest where
  path : ByteString
  protocol : HttpProtocol
  method : HttpMethod
  headers : HttpHeaders
  body : ByteString
  deriving DecidableEq, Repr

namespace HttpRequest

/-- The loop of `GetHeader`. -/
def headerIn (key : ByteString) : HttpHeaders → Option ByteString
  | [] => none
  | ref :: headers => if ref.key = key then some ref.value else headerIn key headers

/-- The exception `GetHeader` throws for a key that is not there. -/
def headerNotFound (key : ByteString) : CppException :=
  .notFoundException (formatThis "Header " key " not found")

/-- `GetHeader`. -/
def getHeader (r : HttpRequest) (key : ByteString) : Except Fault ByteString :=
  match headerIn key r.headers with
  | some value => .ok value
  | none => .error (.thrown (headerNotFound key))

/-- `HasBody`. -/
def hasBody (r : HttpRequest) : Bool :=
  r.method == .post || r.method == .put || r.method == .patch

theorem headerIn_eq_none_iff {key : ByteString} {hs : HttpHeaders} :
    headerIn key hs = none ↔ ∀ h ∈ hs, h.key ≠ key := by
  induction hs with
  | nil => simp [headerIn]
  | cons ref hs ih =>
    rw [headerIn]
    by_cases h : ref.key = key
    · simp [h]
    · simp [h, ih]

/-- The loop stops at the first header with the key. -/
theorem headerIn_append {key : ByteString} {pre : HttpHeaders} (hpre : ∀ h ∈ pre, h.key ≠ key)
    (value : ByteString) (post : HttpHeaders) :
    headerIn key (pre ++ ⟨key, value⟩ :: post) = some value := by
  induction pre with
  | nil => simp [headerIn]
  | cons ref pre ih =>
    rw [List.cons_append, headerIn, if_neg (hpre ref (by simp))]
    exact ih fun h hh => hpre h (by simp [hh])

/-- `GetHeader` returns the value of the first header with the key. -/
theorem getHeader_first {r : HttpRequest} {key value : ByteString} {pre post : HttpHeaders}
    (hr : r.headers = pre ++ ⟨key, value⟩ :: post) (hpre : ∀ h ∈ pre, h.key ≠ key) :
    r.getHeader key = .ok value := by
  rw [getHeader, hr, headerIn_append hpre]

/-- `GetHeader` throws a `NotFoundException` exactly when the key does not occur. -/
theorem getHeader_throws_iff {r : HttpRequest} {key : ByteString} :
    (∃ reason, r.getHeader key = .error (.thrown (.notFoundException reason))) ↔
      ∀ h ∈ r.headers, h.key ≠ key := by
  rw [← headerIn_eq_none_iff, getHeader]
  cases headerIn key r.headers with
  | none => simp [headerNotFound]
  | some value => simp

end HttpRequest

/-! ## Responses -/

/-- `HttpResponse`. -/
structure HttpResponse where
  code : HttpStatusCode
  protocol : HttpProtocol
  headers : HttpHeaders
  body : ByteString
  deriving DecidableEq, Repr

namespace HttpResponse

/-- The default constructor. -/
def new : HttpResponse := ⟨.ok, .v11, [], []⟩

def setBody (r : HttpResponse) (body : ByteString) : HttpResponse := { r with body }

def setStatusCode (r : HttpResponse) (code : HttpStatusCode) : HttpResponse := { r with code }

def setProtocol (r : HttpResponse) (protocol : HttpProtocol) : HttpResponse := { r with protocol }

def addHeader (r : HttpResponse) (header : HttpHeader) : HttpResponse :=
  { r with headers := r.headers ++ [header] }

end HttpResponse

/-! ## Rendering a response -/

/-- `Buffer`: a heap block and its length in 16 bits. -/
structure Buffer where
  data : ByteString
  size : UInt16
  deriving DecidableEq, Repr

/-- `GetReadableProtocol`. -/
def getReadableProtocol : HttpProtocol → ByteString
  | .v10 => bytes "1.0"
  | .v11 => bytes "1.1"
  | .v2 => bytes "2.0"

/-- `GetReadableStatusCode`: every code without a case of its own reads as 404. -/
def getReadableStatusCode : HttpStatusCode → ByteString
  | .ok => bytes "200 OK"
  | .internalServerError => bytes "500 InternalServerError"
  | _ => bytes "404 NotFound"

/-- The text `BufferFromResponse` streams together. -/
def responseText (response : HttpResponse) : ByteString :=
  bytes "HTTP/" ++ getReadableProtocol response.protocol ++ bytes " " ++
    getReadableStatusCode response.code ++ crlf ++
    (bytes "Date: Mon, 16 Sep 2019 09:10:10 GMT" ++ crlf) ++
    (bytes "Server: cpp-webserver-eventdriven-1.0" ++ crlf) ++
    (bytes "Connection: Keep-Alive" ++ crlf) ++
    (bytes "Content-Type: application/json" ++ crlf) ++
    (bytes "Content-Length: " ++ bytes (toString response.body.length) ++ crlf) ++
    crlf ++ response.body

/-- `HttpParser::BufferFromResponse`. -/
def bufferFromResponse (response : HttpResponse) : Buffer :=
  ⟨responseText response, UInt16.ofNat (responseText response).length⟩

end WebServer
