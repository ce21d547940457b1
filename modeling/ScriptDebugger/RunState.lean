/-
  The run state of an engine

  An engine is runnable, paused, or done: halted or faulted. A debugger moves
  an engine between runnable and paused and leaves the terminal states to the
  engine.

  Correspondence (stepvm ↔ here):
    `VmState`          ↔ `RunState`
    `None`, `Halt`     ↔ `runnable`, `halted`
    `Fault`, `Break`   ↔ `faulted`, `paused`
    `is_terminal`      ↔ `isTerminal`
    the display text   ↔ `name`, read back by `ofName`
-/

namespace ScriptDebugger

inductive RunState where
  | runnable
  | halted
  | faulted
  | paused
  deriving DecidableEq, Repr

namespace RunState

/-- A fresh engine is runnable. -/
instance : Inhabited RunState := ⟨.runnable⟩

/-- Whether execution is over for good. -/
def isTerminal : RunState → Bool
  | .halted | .faulted => true
  | .runnable | .paused => false

theorem runnable_or_paused {s : RunState} (h : s.isTerminal = false) :
    s = .runnable ∨ s = .paused := by
  cases s with
  | runnable => exact .inl rfl
  | paused => exact .inr rfl
  | halted => cases h
  | faulted => cases h

def name : RunState → String
  | .runnable => "NONE"
  | .halted => "HALT"
  | .faulted => "FAULT"
  | .paused => "BREAK"

/-- A text that names no state. -/
inductive UnknownName where
  | unknownName
  deriving DecidableEq, Repr

/-- The wording of the error. -/
def UnknownName.message : UnknownName → String
  | .unknownName => "Matching variant not found"

/-- The state that a text names, in capitals and without blanks. -/
def ofName : String → Except UnknownName RunState
  | "NONE" => .ok .runnable
  | "HALT" => .ok .halted
  | "FAULT" => .ok .faulted
  | "BREAK" => .ok .paused
  | _ => .error .unknownName

theorem ofName_name (s : RunState) : ofName s.name = .ok s := by
  cases s <;> rfl

theorem name_injective {s t : RunState} (h : s.name = t.name) : s = t := by
  have read := ofName_name s
  rw [h, ofName_name] at read
  exact (Except.ok.inj read).symm

end RunState

end ScriptDebugger
