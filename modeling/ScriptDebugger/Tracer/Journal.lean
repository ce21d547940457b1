/-
  Structured log records

  A journal turns each event into a record of a level, a message and named
  fields, for a host to filter and store. Instructions and forced run states
  are of the lowest level; whatever concerns a breakpoint is one level up.
-/
import ScriptDebugger.Text.Hex
import ScriptDebugger.Tracer

namespace ScriptDebugger

namespace Journal

/-- How much a record matters. -/
inductive Level where
  | trace
  | debug
  deriving DecidableEq, Repr

def Level.name : Level → String
  | .trace => "TRACE"
  | .debug => "DEBUG"

inductive Field where
  | number (n : Nat)
  | text (s : String)
  deriving DecidableEq, Repr

structure Record where
  level : Level
  message : String
  fields : List (String × Field)
  deriving DecidableEq, Repr

/-- The fields that name a location. -/
def place (l : Location) : List (String × Field) :=
  [("script_hash", .text (Hex.text l.script)), ("offset", .number l.offset.toNat)]

def record : Event → Record
  | .step depth state => ⟨.trace, "step", [("depth", .number depth), ("state", .text state.name)]⟩
  | .hit l => ⟨.debug, "breakpoint hit", place l⟩
  | .stateChange old new =>
    ⟨.trace, "state forced", [("from", .text old.name), ("to", .text new.name)]⟩
  | .added l => ⟨.debug, "breakpoint added", place l⟩
  | .removed l => ⟨.debug, "breakpoint removed", place l⟩

end Journal

/-- A tracer that keeps log records. -/
structure Journal where
  records : Array Journal.Record

namespace Journal

def empty : Journal := ⟨#[]⟩

instance : Tracer Journal := ⟨fun j e => ⟨j.records.push (record e)⟩⟩

end Journal

end ScriptDebugger
