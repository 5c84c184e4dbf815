import WebServer.Http.Types

/-!
# How a call can end

A C++ function returns, throws, or does something after which the language
promises nothing.  The model keeps these apart: a call yields `Except Fault α`,
next to the state it has reached by then, and only a thrown exception can be
caught.
-/

namespace WebServer

/-- The exceptions the server's code throws or may meet. -/
inductive CppException
  /-- `std::out_of_range`, thrown by `std::string::substr`. -/
  | outOfRange
  /-- `std::bad_alloc`. -/
  | badAlloc
  /-- `std::runtime_error`. -/
  | runtimeError (reason : ByteString)
  /-- `NotFoundException`, a subclass of `HttpException`. -/
  | notFoundException (reason : ByteString)
  /-- Any other subclass of `HttpException`, which is a `std::runtime_error`. -/
  | httpException (status : HttpStatusCode) (reason : ByteString)
  /-- Anything else that can be thrown. -/
  | other
  deriving DecidableEq, Repr

namespace CppException

/-- What `catch (HttpException& ex)` gets of it: `ex.GetStatusCode()` and `ex.what()`. -/
def asHttpException : CppException → Option (HttpStatusCode × ByteString)
  | .notFoundException reason => some (.notFound, cString reason)
  | .httpException status reason => some (status, cString reason)
  | _ => none

/-- What `catch (std::runtime_error& error)` gets of it: `error.what()`. -/
def asRuntimeError : CppException → Option ByteString
  | .runtimeError reason => some (cString reason)
  | .notFoundException reason => some (cString reason)
  | .httpException _ reason => some (cString reason)
  | _ => none

/-- Is it an exception class of the standard library? -/
def isStandard : CppException → Bool
  | .outOfRange => true
  | .badAlloc => true
  | .runtimeError _ => true
  | _ => false

/-- Every `HttpException` is a `std::runtime_error`. -/
theorem asRuntimeError_of_asHttpException {ex : CppException} {p : HttpStatusCode × ByteString}
    (h : ex.asHttpException = some p) : ex.asRuntimeError = some p.2 := by
  cases ex with
  | notFoundException reason => cases h; rfl
  | httpException status reason => cases h; rfl
  | _ => cases h

end CppException

/-- The ways not to return. -/
inductive Fault
  /-- An exception is on its way up. -/
  | thrown (ex : CppException)
  /-- Undefined behaviour: an element outside of a container was read or popped. -/
  | outOfBounds
  /-- Undefined behaviour: a null pointer was followed. -/
  | nullPointer
  /-- A loop was not left within the steps the model grants it, or a call waits for ever. -/
  | diverges
  /-- `exit(status)`. -/
  | exit (status : ℕ)
  /-- A signal ended the process. -/
  | signal (number : ℕ)
  deriving DecidableEq, Repr

/-- `str.substr(pos, count)`, with `none` for a `count` of `npos`. -/
def substr (str : ByteString) (pos : ℕ) (count : Option ℕ) : Except Fault ByteString :=
  if str.length < pos then .error (.thrown .outOfRange)
  else
    match count with
    | none => .ok (str.drop pos)
    | some n => .ok ((str.drop pos).take n)

theorem substr_of_le {str : ByteString} {pos : ℕ} (h : pos ≤ str.length) (n : ℕ) :
    substr str pos (some n) = .ok ((str.drop pos).take n) := by
  rw [substr, if_neg (by omega)]

/-- The difference `a - b` of two `size_t`, which wraps around below zero. -/
def sizeSub (a b : ℕ) : ℕ := if b ≤ a then a - b else 2 ^ 64 + a - b

theorem sizeSub_of_le {a b : ℕ} (h : b ≤ a) : sizeSub a b = a - b := if_pos h

end WebServer
