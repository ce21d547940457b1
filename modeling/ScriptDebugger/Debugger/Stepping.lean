/-
  Stepping

  The four ways to go on. `stepInto` executes one instruction. `run`,
  `stepOver` and `stepOut` execute until the engine is no longer runnable,
  until the budget is used up, or until the invocation stack is where the call
  wanted it: at no depth in particular, back at the depth of the start, or
  below it. All of them leave a runnable engine paused.

  An engine may run forever, so each of the three takes the number of
  instructions that the caller has the patience to wait for, and gives `none`
  when that is not enough. A call returns if it gives a stop for some
  patience; `advanceUntil_mono` says that it then gives the same stop for
  every greater one.

  Correspondence (stepvm ↔ here):
    `run`                              ↔ `run`
    `step_into`                        ↔ `stepInto`
    `step_over`                        ↔ `stepOver`
    `step_out`                         ↔ `stepOut`
    the loops of these                 ↔ `advanceUntil`
    the conditions that end the loops  ↔ `stops`
    the counter `executed`             ↔ the argument `executed`
  There `run` pauses where it finds the budget used up, and the others pause
  after their loop; here all three pause where the loop stops, which is the same
  since `pause` leaves an engine alone that is not runnable. `step_over` looks
  at its conditions after an instruction; here it has executed its first
  instruction before it goes into the loop.
-/
import ScriptDebugger.Debugger

namespace ScriptDebugger

/-- Where a stepping call has stopped, and how many instructions it took. -/
structure Stop (ε τ : Type) where
  debugger : Debugger ε τ
  executed : Nat

namespace Debugger

variable {ε τ : Type} [Engine ε] [Tracer τ]

/-- Whether a call that has executed so many instructions stops here: the
engine is not runnable, the depth is one to stop at, or the budget is used
up. -/
def stops (arrived : Nat → Bool) (executed : Nat) (d : Debugger ε τ) : Bool :=
  d.state ≠ .runnable || arrived d.depth || d.budget.exhausted executed

/-- Executes instructions until the call stops, and pauses there. -/
def advanceUntil (arrived : Nat → Bool) (patience executed : Nat) (d : Debugger ε τ) :
    Option (Stop ε τ) :=
  if d.stops arrived executed then some ⟨d.pause, executed⟩
  else match patience with
    | 0 => none
    | patience + 1 => advanceUntil arrived patience (executed + 1) d.advance

theorem advanceUntil_mono {arrived : Nat → Bool} {patience more executed : Nat}
    {d : Debugger ε τ} {s : Stop ε τ}
    (h : advanceUntil arrived patience executed d = some s) (enough : patience ≤ more) :
    advanceUntil arrived more executed d = some s := by
  fun_induction advanceUntil arrived patience executed d generalizing more with
  | case1 patience executed d stop =>
    unfold advanceUntil
    rwa [if_pos stop]
  | case2 executed d going => cases h
  | case3 executed d going patience ih =>
    cases more with
    | zero => omega
    | succ more =>
      unfold advanceUntil
      rw [if_neg going]
      exact ih h (Nat.le_of_succ_le_succ enough)

/-- Resumes, and executes until something stops the engine. -/
def run (patience : Nat) (d : Debugger ε τ) : Option (Stop ε τ) :=
  advanceUntil (fun _ => false) patience 0 d.resume

/-- Executes one instruction and pauses, whatever the breakpoints and the
budget. A halted or faulted engine is left as it is. -/
def stepInto (d : Debugger ε τ) : Stop ε τ :=
  if d.state.isTerminal then ⟨d, 0⟩ else ⟨d.execute.pause, 1⟩

/-- Executes one instruction with all the calls it makes, until the stack is
back at its depth. A halted or faulted engine is left as it is. -/
def stepOver (patience : Nat) (d : Debugger ε τ) : Option (Stop ε τ) :=
  if d.state.isTerminal then some ⟨d, 0⟩
  else
    let start := d.resume
    advanceUntil (· ≤ start.depth) patience 1 start.advance

/-- Executes until the topmost frame has returned. -/
def stepOut (patience : Nat) (d : Debugger ε τ) : Option (Stop ε τ) :=
  let start := d.resume
  advanceUntil (· < start.depth) patience 0 start

end Debugger

end ScriptDebugger
