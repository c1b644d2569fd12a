import ClickHouse.Kit.Source

/-!
# Exceptions

The exception classes of `exceptions.h` and `server_exception.h`, with the
standard exceptions the library lets through.  Messages are byte strings, as
`std::string` is.
-/

namespace ClickHouse

open Kit

/-- The bytes of a string literal of the source. -/
def ascii (s : String) : Bytes :=
  s.toList.map fun c => UInt8.ofNat c.toNat

/-- `std::to_string` of an unsigned number. -/
def toDecimal (n : Nat) : Bytes :=
  (Nat.toDigits 10 n).map fun c => UInt8.ofNat c.toNat

/-- `std::to_string` of a signed number. -/
def toDecimalInt : Int → Bytes
  | .ofNat n => toDecimal n
  | .negSucc n => 0x2D :: toDecimal (n + 1)

/-- `struct Exception`: what the server reports. -/
structure Exception where
  code : Int
  name : Bytes
  displayText : Bytes
  stackTrace : Bytes
deriving DecidableEq, Repr

inductive Error
  | validationError (what : Bytes)
  | protocolError (what : Bytes)
  | unimplementedError (what : Bytes)
  | assertionError (what : Bytes)
  | compressionError (what : Bytes)
  /-- `ServerException`, also called `ServerError`. -/
  | serverException (e : Exception)
  /-- `std::system_error` -/
  | systemError (what : Bytes)
  /-- `std::out_of_range` -/
  | outOfRange (what : Bytes)
  /-- `std::invalid_argument` -/
  | invalidArgument (what : Bytes)
  /-- `std::bad_cast` -/
  | badCast
  /-- Not an exception of the source: the call has undefined behaviour. -/
  | undefinedBehavior
  /-- Not an exception of the source: the call divides by zero. -/
  | divisionByZero
  /-- Not an exception of the source: the call does not return. -/
  | diverges
deriving DecidableEq, Repr

end ClickHouse
