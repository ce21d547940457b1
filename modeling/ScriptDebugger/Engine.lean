/-
  Execution engines

  What a debugger needs of an engine: its run state, which can be read and
  set; how deep its invocation stack is; where its topmost frame stands, if
  there is one; and a way to execute one instruction. Looking at an engine
  does not change it. Nothing else is asked: `execute` may move the run state
  anywhere, and `setState` may do nothing.

  Correspondence (stepvm ↔ here):
    `ExecutionEngine`                       ↔ `Engine`
    `state`, `set_state`                    ↔ `state`, `setState`
    `invocation_depth`                      ↔ `depth`
    `current_context`                       ↔ `context?`
    `script_hash`, `instruction_pointer`    ↔ `Location.script`, `Location.offset`
    `execute_next`                          ↔ `execute`
-/
import ScriptDebugger.Location
import ScriptDebugger.RunState

namespace ScriptDebugger

class Engine (ε : Type) where
  /-- The run state. -/
  state : ε → RunState
  /-- Asks for a run state. -/
  setState : RunState → ε → ε
  /-- The number of frames on the invocation stack. -/
  depth : ε → Nat
  /-- The script of the topmost frame and its next instruction. -/
  context? : ε → Option Location
  /-- Executes one instruction. -/
  execute : ε → ε

end ScriptDebugger
