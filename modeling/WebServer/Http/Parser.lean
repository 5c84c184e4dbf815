import WebServer.Library.Table
import WebServer.Http.Message

/-!
# The request parser

`HttpParser::RequestFromBuffer` and the helpers of `HttpParser.cpp`.  The method
table of the parser is written by every lookup of a token it does not know, so a
parse returns the parser it leaves behind next to its result.
-/

namespace WebServer

/-! ## Splitting -/

/-- The `do`-`while` loop of `split`, with the number of rounds it may take. -/
def splitLoop (str delim : ByteString) :
    ℕ → ℕ → List ByteString → Except Fault (List ByteString)
  | 0, _, _ => .error .diverges
  | fuel + 1, prev, tokens =>
    let pos := (find str delim prev).getD str.length
    match substr str prev (some (pos - prev)) with
    | .error f => .error f
    | .ok token =>
      let tokens := if token = [] then tokens else tokens ++ [token]
      let prev := pos + delim.length
      if pos < str.length ∧ prev < str.length then splitLoop str delim fuel prev tokens
      else .ok tokens

/-- `split`: one round for each position of the string is more than it needs. -/
def split (str delim : ByteString) : Except Fault (List ByteString) :=
  splitLoop str delim (str.length + 1) 0 []

/-! ## Header lines -/

/-- Where `get_right_of_delim` starts to cut, `str.find(delim) + delim.size() + 1`
in `size_t`: without a delimiter `npos` wraps around to `delim.size()`. -/
def rightStart (str delim : ByteString) : ℕ :=
  match find str delim 0 with
  | some pos => pos + delim.length + 1
  | none => (2 ^ 64 - 1 + delim.length + 1) % 2 ^ 64

/-- `get_right_of_delim`. -/
def getRightOfDelim (str delim : ByteString) : Except Fault ByteString :=
  substr str (rightStart str delim) none

/-- `get_left_of_delim`. -/
def getLeftOfDelim (str delim : ByteString) : Except Fault ByteString :=
  substr str 0 (find str delim 0)

/-- One round of the header loop of `RequestFromBuffer`. -/
def readHeader (line : ByteString) : Except Fault HttpHeader :=
  match getLeftOfDelim line [colon] with
  | .error f => .error f
  | .ok key =>
    match getRightOfDelim line [colon] with
    | .error f => .error f
    | .ok value => .ok ⟨key, value⟩

/-- The header loop, for `count` rounds from the head of `lines` on. -/
def readHeaders : List ByteString → ℕ → Except Fault HttpHeaders
  | _, 0 => .ok []
  | [], _ + 1 => .error .outOfBounds
  | line :: lines, count + 1 =>
    match readHeader line with
    | .error f => .error f
    | .ok header =>
      match readHeaders lines count with
      | .error f => .error f
      | .ok headers => .ok (header :: headers)

/-- `count` calls of `lines.pop_front()`. -/
def popFront : List ByteString → ℕ → Except Fault (List ByteString)
  | lines, 0 => .ok lines
  | [], _ + 1 => .error .outOfBounds
  | _ :: lines, count + 1 => popFront lines count

/-! ## The parser -/

/-- `RequestHasBody`. -/
def requestHasBody : HttpMethod → Bool
  | .post | .patch | .put => true
  | _ => false

/-- The part of `RequestFromBuffer` below the start line.  Its `headerCount` is an `int`; it takes
2³¹ lines, and so more than 6 GiB, to overflow it. -/
def readFields (httpMethod : HttpMethod) (path : ByteString) (lines : List ByteString) :
    Except Fault HttpRequest :=
  let hasBody := requestHasBody httpMethod
  let totalHeaders := sizeSub lines.length (if hasBody then 1 else 0)
  match readHeaders lines totalHeaders with
  | .error f => .error f
  | .ok headers =>
    match popFront lines headers.length with
    | .error f => .error f
    | .ok lines =>
      .ok ⟨path, .v11, httpMethod, headers, lines.headD []⟩

/-- `HttpParser`: its protocol and `_methodMapping`. -/
structure HttpParser where
  protocol : HttpProtocol
  methodMapping : Finmap (fun _ : ByteString => HttpMethod)

/-- The names the constructor enters into the method table. -/
def methodName : HttpMethod → ByteString
  | .get => bytes "GET"
  | .post => bytes "POST"
  | .head => bytes "HEAD"
  | .put => bytes "PUT"
  | .patch => bytes "PATCH"
  | .delete => bytes "DELETE"
  | .connect => bytes "CONNECT"
  | .options => bytes "OPTIONS"
  | .trace => bytes "TRACE"

/-- The methods in the order in which the constructor enters them. -/
def allMethods : List HttpMethod :=
  [.get, .post, .head, .put, .patch, .delete, .connect, .options, .trace]

namespace HttpParser

/-- The constructor. -/
def new (protocol : HttpProtocol) : HttpParser where
  protocol
  methodMapping := allMethods.foldl (fun table m => table.insert (methodName m) m) ∅

/-- The part of `RequestFromBuffer` that reads the start line: the method, the
path and the lines that are left in the deque. -/
def readStartLine (p : HttpParser) (buffer : ByteString) :
    HttpParser × Except Fault (HttpMethod × ByteString × List ByteString) :=
  match split buffer crlf with
  | .error f => (p, .error f)
  | .ok [] => (p, .error .outOfBounds)
  | .ok (startLine :: lines) =>
    match split startLine [space] with
    | .error f => (p, .error f)
    | .ok [] => (p, .error .outOfBounds)
    | .ok (stringMethod :: startLineSplit) =>
      -- `operator[]` enters an unknown token, with the first method as its value
      let access := Table.subscript p.methodMapping stringMethod default
      let p := { p with methodMapping := access.1 }
      match startLineSplit with
      | [] => (p, .error .outOfBounds)
      | path :: _ => (p, .ok (access.2, path, lines))

/-- `HttpParser::RequestFromBuffer`. -/
def requestFromBuffer (p : HttpParser) (buffer : ByteString) :
    HttpParser × Except Fault HttpRequest :=
  match p.readStartLine buffer with
  | (p, .error f) => (p, .error f)
  | (p, .ok (httpMethod, path, lines)) => (p, readFields httpMethod path lines)

/-- The parsers that parsing makes of a new one. -/
inductive Reachable : HttpParser → Prop
  | new (protocol : HttpProtocol) : Reachable (new protocol)
  | parse {p : HttpParser} (buffer : ByteString) :
      Reachable p → Reachable (p.requestFromBuffer buffer).1

end HttpParser

end WebServer
