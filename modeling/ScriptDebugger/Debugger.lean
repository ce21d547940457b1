/-
  The debugger

  A debugger holds an engine, the breakpoints, a budget and a tracer. It never
  executes anything but by asking the engine for one instruction at a time,
  and it pauses by setting the engine's run state between two instructions.

  This module has what a stepping call is made of: executing one instruction,
  finding out whether it arrived at a breakpoint, pausing and resuming. A run
  state is set and reported only where it differs from the one the engine
  shows.

  Correspondence (stepvm ↔ here):
    `new`, `with_tracer`                  ↔ `attach`
    `limits`, `with_limits`               ↔ the field `budget`
    `breakpoints`, `with_breakpoints`     ↔ the field `breakpoints`
    `force_state`                         ↔ `forceState`
    `pause_if_runnable`                   ↔ `pause`
    `execute_and_check_breakpoints`       ↔ `advance`
    `add_breakpoint`, `remove_breakpoint` ↔ `addBreakpoint`, `removeBreakpoint`
  `resume`, `execute` and `checkHit` are parts of these and of the stepping
  calls there and have no names of their own. Nor does `checkHit` look first
  whether there is any breakpoint, as is done there: `contains` says so.
-/
import ScriptDebugger.Breakpoints
import ScriptDebugger.Budget
import ScriptDebugger.Engine
import ScriptDebugger.Tracer

namespace ScriptDebugger

/-- A debugger of engines of type `ε` with a tracer of type `τ`. -/
structure Debugger (ε τ : Type) where
  engine : ε
  breakpoints : Breakpoints
  budget : Budget
  tracer : τ

namespace Debugger

variable {ε τ : Type} [Engine ε] [Tracer τ]

/-- A debugger without breakpoints and without a bound. -/
def attach (engine : ε) (tracer : τ) : Debugger ε τ := ⟨engine, .empty, .unlimited, tracer⟩

/-- The run state of the engine. -/
def state (d : Debugger ε τ) : RunState := Engine.state d.engine

/-- The depth of the engine's invocation stack. -/
def depth (d : Debugger ε τ) : Nat := Engine.depth d.engine

/-- Reports an event to the tracer. -/
def report (e : Event) : Debugger ε τ → Debugger ε τ
  | ⟨engine, breakpoints, budget, tracer⟩ => ⟨engine, breakpoints, budget, Tracer.observe tracer e⟩

/-- Sets the run state and reports that, unless the engine shows it
already. -/
def forceState (target : RunState) (d : Debugger ε τ) : Debugger ε τ :=
  if d.state = target then d
  else report (.stateChange d.state target) { d with engine := Engine.setState target d.engine }

/-- Makes a paused engine runnable. -/
def resume (d : Debugger ε τ) : Debugger ε τ :=
  if d.state = .paused then d.forceState .runnable else d

/-- Pauses a runnable engine. -/
def pause (d : Debugger ε τ) : Debugger ε τ :=
  if d.state = .runnable then d.forceState .paused else d

/-- Executes one instruction and reports it. -/
def execute : Debugger ε τ → Debugger ε τ
  | ⟨engine, breakpoints, budget, tracer⟩ =>
    let engine := Engine.execute engine
    ⟨engine, breakpoints, budget, Tracer.observe tracer (.step (Engine.depth engine) (Engine.state engine))⟩

/-- The breakpoint at which a runnable engine stands. -/
def hit? (d : Debugger ε τ) : Option Location :=
  if d.state = .runnable ∧ d.depth ≠ 0 then
    (Engine.context? d.engine).filter d.breakpoints.contains
  else none

/-- Reports the breakpoint at which the engine stands, if it stands at one,
and pauses there. -/
def checkHit (d : Debugger ε τ) : Debugger ε τ :=
  match d.hit? with
  | none => d
  | some l => (d.report (.hit l)).forceState .paused

/-- Executes one instruction and pauses if that arrived at a breakpoint. -/
def advance (d : Debugger ε τ) : Debugger ε τ := d.execute.checkHit

/-- Adds a breakpoint; reports it if it was not there. -/
def addBreakpoint (l : Location) (d : Debugger ε τ) : Debugger ε τ :=
  match d.breakpoints.insert l with
  | (true, breakpoints) => report (.added l) { d with breakpoints }
  | (false, breakpoints) => { d with breakpoints }

/-- Removes a breakpoint, and tells whether it was there; reports it if it
was. -/
def removeBreakpoint (l : Location) (d : Debugger ε τ) : Bool × Debugger ε τ :=
  match d.breakpoints.remove l with
  | (true, breakpoints) => (true, report (.removed l) { d with breakpoints })
  | (false, breakpoints) => (false, { d with breakpoints })

end Debugger

end ScriptDebugger
