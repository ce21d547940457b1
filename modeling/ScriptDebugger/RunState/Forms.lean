/-
  Persisted forms of a run state

  As bytes a state is its number. As JSON it is its label, a text; an object
  whose one member has the label as its name and null as its value is read
  as well.
-/
import ScriptDebugger.Json.Document
import ScriptDebugger.RunState
import ScriptDebugger.Wire.Varint

namespace ScriptDebugger.RunState

def number : RunState → Nat
  | .runnable => 0
  | .halted => 1
  | .faulted => 2
  | .paused => 3

def ofNumber : Nat → Except Wire.Fault RunState
  | 0 => .ok .runnable
  | 1 => .ok .halted
  | 2 => .ok .faulted
  | 3 => .ok .paused
  | _ => .error .unknownVariant

def toBytes (s : RunState) : Bytes := Wire.Varint.encode s.number

/-- Takes a state off the front of a byte string. -/
def read : Wire.Reader RunState := fun bytes => do
  let (number, bytes) ← Wire.Varint.read .word32 bytes
  let s ← ofNumber number
  return (s, bytes)

/-- The state at the front of a byte string. -/
def ofBytes (bytes : Bytes) : Except Wire.Fault RunState := Wire.Reader.first read bytes

def label : RunState → String
  | .runnable => "None"
  | .halted => "Halt"
  | .faulted => "Fault"
  | .paused => "Break"

def ofLabel? : String → Option RunState
  | "None" => some .runnable
  | "Halt" => some .halted
  | "Fault" => some .faulted
  | "Break" => some .paused
  | _ => none

def toJson (s : RunState) : String := "\"" ++ s.label ++ "\""

def ofValue? : Json → Option RunState
  | .text (some chars) => ofLabel? (String.ofList chars)
  | .object [(some chars, .null)] => ofLabel? (String.ofList chars)
  | _ => none

def ofJson? (text : String) : Option RunState := (Json.parse? text.toList).bind ofValue?

end ScriptDebugger.RunState
