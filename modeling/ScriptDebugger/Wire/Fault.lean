/-
  Reading persisted bytes: faults and readers

  A reader takes a value off the front of a byte string and hands back the
  bytes after it, or says why there is no value. Nothing is said about the
  bytes that are left, so what follows a complete value is never looked at.
-/
import ScriptDebugger.Bytes

namespace ScriptDebugger.Wire

/-- Why bytes hold no value. -/
inductive Fault where
  | truncated
  /-- A number goes on past its last permitted byte, or overflows there. -/
  | unterminated
  /-- The byte that says whether an optional value is present is neither 0
  nor 1. -/
  | presence
  /-- A number that names no alternative of a type. -/
  | unknownVariant
  deriving DecidableEq, Repr

def Fault.message : Fault → String
  | .truncated => "Hit the end of buffer, expected more data"
  | .unterminated => "Found a varint that didn't terminate. Is the usize too big for this platform?"
  | .presence => "Found an Option discriminant that wasn't 0 or 1"
  | .unknownVariant => "Serde Deserialization Error"

/-- Takes a value off the front of a byte string. -/
abbrev Reader (α : Type) := Bytes → Except Fault (α × Bytes)

/-- The value at the front of the bytes; the rest is not looked at. -/
def Reader.first {α : Type} (read : Reader α) (bytes : Bytes) : Except Fault α :=
  (read bytes).map Prod.fst

end ScriptDebugger.Wire
