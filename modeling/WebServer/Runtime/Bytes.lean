import WebServer.Library.Separator

/-!
# Byte strings

`std::string` as a list of bytes, with the few operations of the standard
library the server uses on it: literals, `find`, C strings (which end at the
first NUL) and the one shape of `Format::This` that occurs in it.

Positions are natural numbers and `std::string::npos` is `none`; a position that
was found is below `max_size` and takes part in no wrap-around.
-/

namespace WebServer

/-- A `std::string`, or any other run of raw bytes. -/
abbrev ByteString := List UInt8

/-- The bytes of a literal. -/
def bytes (s : String) : ByteString := s.toList.map fun c => UInt8.ofNat c.toNat

/-- Carriage return. -/
def cr : UInt8 := 13

/-- Line feed. -/
def lf : UInt8 := 10

/-- `"\r\n"`. -/
def crlf : ByteString := [cr, lf]

/-- The space character. -/
def space : UInt8 := 32

/-- The colon character. -/
def colon : UInt8 := 58

/-- `str.find(delim, pos)`, with `none` for `npos`. -/
def find (str delim : ByteString) (pos : ℕ) : Option ℕ :=
  if pos ≤ str.length then (Separator.leftmost delim (str.drop pos)).map (pos + ·) else none

@[simp] theorem find_zero (str delim : ByteString) :
    find str delim 0 = Separator.leftmost delim str := by
  simp [find]

/-- What a function that takes a `const char*` sees of a string. -/
def cString (s : ByteString) : ByteString := s.takeWhile (· ≠ 0)

@[simp] theorem cString_nil : cString [] = [] := rfl

theorem zero_notMem_cString (s : ByteString) : 0 ∉ cString s := fun h => by
  simpa using List.mem_takeWhile_imp h

/-- Bytes without a NUL are read to their end, and on. -/
theorem cString_append {s : ByteString} (h : 0 ∉ s) (t : ByteString) :
    cString (s ++ t) = s ++ cString t := by
  refine List.takeWhile_append_of_pos fun b hb => ?_
  rw [decide_eq_true_eq]
  rintro rfl
  exact h hb

theorem cString_of_notMem {s : ByteString} (h : 0 ∉ s) : cString s = s := by
  simpa using cString_append h []

/-- A NUL ends what is read. -/
theorem cString_append_zero (s t : ByteString) : cString (s ++ 0 :: t) = cString s := by
  induction s with
  | nil => rfl
  | cons b s ih =>
    rw [cString, cString, List.cons_append, List.takeWhile_cons, List.takeWhile_cons]
    split_ifs
    · exact congrArg (b :: ·) ih
    · rfl

/-- `Format::This("before%safter", arg.data())`.  `snprintf` reports a failure
only for a text longer than `INT_MAX`, so its error branch is left out. -/
def formatThis (before : String) (arg : ByteString) (after : String) : ByteString :=
  bytes before ++ (cString arg ++ bytes after)

end WebServer
