/-
  Sequences

  A sequence is its length, as a variable-length number, and then its members
  one after another. A byte string is a sequence of single bytes.
-/
import ScriptDebugger.Wire.Varint

namespace ScriptDebugger.Wire

def byte : Reader UInt8
  | [] => .error .truncated
  | b :: rest => .ok (b, rest)

/-- Takes as many values as asked for. -/
def times {α : Type} (read : Reader α) : Nat → Reader (List α)
  | 0, bytes => .ok ([], bytes)
  | n + 1, bytes => do
    let (first, bytes) ← read bytes
    let (others, bytes) ← times read n bytes
    return (first :: others, bytes)

/-- Takes a length and then that many values. -/
def sequence {α : Type} (read : Reader α) : Reader (List α) := fun bytes => do
  let (n, bytes) ← Varint.read .word64 bytes
  times read n bytes

/-- The length, and then the members in order. -/
def writeSequence {α : Type} (write : α → Bytes) (members : List α) : Bytes :=
  Varint.encode members.length ++ members.flatMap write

/-- Takes a byte string with its length in front. -/
def byteString : Reader Bytes := sequence byte

def writeByteString (bytes : Bytes) : Bytes := writeSequence (fun b => [b]) bytes

end ScriptDebugger.Wire
