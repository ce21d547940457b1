/-
  Counting distinct values

  How many different integers, byte strings and pointers there are among some
  operands. Values of different kinds are never the same here.
-/
import ScriptDebugger.Operand

namespace ScriptDebugger.Operand

/-- Numbers of distinct values, by kind. -/
structure Census where
  integers : Nat
  byteStrings : Nat
  pointers : Nat
  deriving DecidableEq, Repr

def integer? : Operand → Option Integer
  | .integer i => some i
  | _ => none

def bytes? : Operand → Option Bytes
  | .bytes b => some b
  | _ => none

def pointer? : Operand → Option UInt32
  | .pointer position => some position
  | _ => none

/-- Counts the distinct values among operands. -/
def Census.ofList (operands : List Operand) : Census where
  integers := (operands.filterMap integer?).eraseDups.length
  byteStrings := (operands.filterMap bytes?).eraseDups.length
  pointers := (operands.filterMap pointer?).eraseDups.length

end ScriptDebugger.Operand
