/-
  Sample host types

  Host types whose comparisons cover what a comparison can be: equality of
  numbers and of texts, a comparison that never holds, one that looks at a
  remainder only, one that is not symmetric, and equality of the machine's own
  integers, byte strings and pointers kept as host objects.
-/
import ScriptDebugger.Operand.Host
import ScriptDebugger.Operand.Integer

namespace ScriptDebugger

inductive Sample where
  | number
  | text
  /-- Numbers that are never the same. -/
  | never
  /-- Numbers that are the same if their remainders by ten are. -/
  | remainder
  /-- Numbers that are the same if the left one is at most the right one. -/
  | order
  | integer
  | bytes
  | pointer
  deriving DecidableEq, Repr

namespace Sample

abbrev Value : Sample → Type
  | .number | .never | .remainder | .order => Int
  | .text => String
  | .integer => Integer
  | .bytes => Bytes
  | .pointer => UInt32

def same : (kind : Sample) → Value kind → Value kind → Bool
  | .number, (a : Int), (b : Int) => a == b
  | .text, (a : String), (b : String) => a == b
  | .never, _, _ => false
  | .remainder, (a : Int), (b : Int) => a % 10 == b % 10
  | .order, (a : Int), (b : Int) => a ≤ b
  | .integer, (a : Integer), (b : Integer) => a == b
  | .bytes, (a : Bytes), (b : Bytes) => a == b
  | .pointer, (a : UInt32), (b : UInt32) => a == b

instance : HostKind Sample := ⟨Value, same⟩

end Sample

end ScriptDebugger
