/-
  Integers of the machine

  An integer has a value of any size. How many bytes it takes is found out
  when it is first asked for and remembered with the value from then on, in
  copies too. A remembered length is the right one, which is part of the type,
  so asking gives the same answer before and after (`byteLength_eq`). What is
  remembered plays no part in comparisons, which are of values only.

  Correspondence (stepvm ↔ here):
    `Integer::new`, `from_le_bytes`     ↔ `ofInt`, `ofBytes`
    the cached length                   ↔ `knownLength`
    `to_bytes`, `byte_length`           ↔ `toBytes`, `byteLength`
    `to_boolean`                        ↔ `truthy`
-/
import ScriptDebugger.Operand.TwosComplement
import ScriptDebugger.Text.Decimal

namespace ScriptDebugger

/-- An integer, and its length in bytes if that is known already. -/
structure Integer where
  value : Int
  knownLength : Option Nat
  known : ∀ length, knownLength = some length → length = (TwosComplement.encode value).length
  deriving Repr

namespace Integer

def ofInt (n : Int) : Integer := ⟨n, none, fun _ h => nomatch h⟩

/-- The integer that a byte string stands for. -/
def ofBytes (bytes : Bytes) : Integer := ofInt (TwosComplement.decode bytes)

/-- The shortest byte string that stands for an integer. -/
def toBytes (i : Integer) : Bytes := TwosComplement.encode i.value

/-- The length of the shortest byte string, looked up if it is known. -/
def byteLength (i : Integer) : Nat := i.knownLength.getD i.toBytes.length

theorem byteLength_eq (i : Integer) : i.byteLength = i.toBytes.length := by
  unfold byteLength
  cases h : i.knownLength with
  | none => rfl
  | some length => exact i.known length h

/-- The integer once its length has been asked for. -/
def measured (i : Integer) : Integer where
  value := i.value
  knownLength := some i.byteLength
  known := by
    intro length h
    cases h
    exact i.byteLength_eq

/-- Zero is false. -/
def truthy (i : Integer) : Bool := i.value ≠ 0

/-- Integers of one value are the same. -/
instance : BEq Integer := ⟨fun i j => decide (i.value = j.value)⟩

def text (i : Integer) : String := Decimal.text i.value

end Integer

end ScriptDebugger
