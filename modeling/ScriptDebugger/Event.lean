/-
  What a debugger reports

  Every instruction executed, every pause at a breakpoint, every run state
  that the debugger sets and every change to its breakpoints is an event. The
  events of a session, in order, are all that an observer of the debugger
  gets to see.

  Correspondence (stepvm ↔ here):
    `DebugEvent`, and the call that reports it   ↔ `Event`
    `Step`, `on_step`                            ↔ `step`
    `BreakpointHit`, `on_breakpoint_hit`         ↔ `hit`
    `StateChange`, `on_state_change`             ↔ `stateChange`
    `BreakpointAdded`, `on_breakpoint_added`     ↔ `added`
    `BreakpointRemoved`, `on_breakpoint_removed` ↔ `removed`
-/
import ScriptDebugger.Location
import ScriptDebugger.RunState

namespace ScriptDebugger

inductive Event where
  /-- An instruction was executed; the depth and the state are those after
  it. -/
  | step (depth : Nat) (state : RunState)
  | hit (location : Location)
  | stateChange (old new : RunState)
  /-- A breakpoint was added that was not there. -/
  | added (location : Location)
  /-- A breakpoint was removed that was there. -/
  | removed (location : Location)
  deriving DecidableEq, Repr

def Event.isStep : Event → Bool
  | .step .. => true
  | _ => false

end ScriptDebugger
