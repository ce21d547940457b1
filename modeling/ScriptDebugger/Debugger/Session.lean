/-
  Sessions

  A session is a list of commands given to a debugger one after another: the
  four ways of stepping, changes to single breakpoints, and new budgets and
  breakpoints as a whole. Each command has a reply. A session is over early if
  one of its stepping calls does not return within the patience.

  Correspondence (stepvm ↔ here):
    `run`, `step_into`                    ↔ `Command.run`, `Command.stepInto`
    `step_over`, `step_out`               ↔ `Command.stepOver`, `Command.stepOut`
    `add_breakpoint`, `remove_breakpoint` ↔ `Command.addBreakpoint`,
                                            `Command.removeBreakpoint`
    `with_limits`, `with_breakpoints`     ↔ `Command.setBudget`,
                                            `Command.setBreakpoints`
    what a call returns                   ↔ `Reply`
-/
import ScriptDebugger.Debugger.Stepping

namespace ScriptDebugger

inductive Command where
  | run
  | stepInto
  | stepOver
  | stepOut
  | addBreakpoint (l : Location)
  | removeBreakpoint (l : Location)
  | setBudget (budget : Budget)
  | setBreakpoints (breakpoints : Breakpoints)

inductive Reply where
  /-- The run state in which a stepping call left the engine. -/
  | stopped (state : RunState)
  /-- Whether a breakpoint was there to be removed. -/
  | removed (present : Bool)
  | done
  deriving DecidableEq, Repr

/-- The outcome of a command or of a session so far: the reply or replies, the
debugger after it, and how many instructions were executed. -/
structure Outcome (ε τ ρ : Type) where
  reply : ρ
  debugger : Debugger ε τ
  executed : Nat

namespace Debugger

variable {ε τ : Type} [Engine ε] [Tracer τ]

/-- The outcome of a stepping call that has stopped. -/
def outcome (stop : Stop ε τ) : Outcome ε τ Reply :=
  ⟨.stopped stop.debugger.state, stop.debugger, stop.executed⟩

def perform (patience : Nat) (d : Debugger ε τ) : Command → Option (Outcome ε τ Reply)
  | .run => (d.run patience).map outcome
  | .stepInto => some (outcome d.stepInto)
  | .stepOver => (d.stepOver patience).map outcome
  | .stepOut => (d.stepOut patience).map outcome
  | .addBreakpoint l => some ⟨.done, d.addBreakpoint l, 0⟩
  | .removeBreakpoint l =>
    match d.removeBreakpoint l with
    | (present, d) => some ⟨.removed present, d, 0⟩
  | .setBudget budget => some ⟨.done, { d with budget }, 0⟩
  | .setBreakpoints breakpoints => some ⟨.done, { d with breakpoints }, 0⟩

/-- Carries out commands in order; the replies are in the same order. -/
def performAll (patience : Nat) (d : Debugger ε τ) : List Command → Option (Outcome ε τ (List Reply))
  | [] => some ⟨[], d, 0⟩
  | command :: commands => do
    let first ← d.perform patience command
    let others ← performAll patience first.debugger commands
    return ⟨first.reply :: others.reply, others.debugger, first.executed + others.executed⟩

end Debugger

end ScriptDebugger
