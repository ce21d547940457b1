/-
  Machines on top of other frames

  An instruction looks at the topmost frame only. So a machine whose frames
  lie on top of others does what it does alone, and the others stay as they
  are, until its last frame returns: alone it halts there, and on top of other
  frames it is back in the one below.

  What is proved:
    1. `execute_of_cons` — all that an instruction can do to a machine.
    2. `after_onto` — a machine run on top of other frames is the machine run
       alone, put on top of them, for as long as the machine alone is not over
       and for one instruction more.
    3. `execute_suffix` — the frames below the topmost one stay.
-/
import ScriptDebugger.Engine.Machine
import ScriptDebugger.Proofs.Debugger.Loop

namespace ScriptDebugger

/-! ## What an instruction does -/

def Frame.advance (f : Frame) : Frame := { f with next := f.next + 1 }

namespace Instruction

def frames (top : Frame) (rest : List Frame) : Instruction → List Frame
  | .nop | .fault => top.advance :: rest
  | .call script => ⟨script, 0⟩ :: top.advance :: rest
  | .ret => rest

/-- The run state after an instruction of a frame on top of `rest`. -/
def state (rest : List Frame) (before : RunState) : Instruction → RunState
  | .nop | .call _ => before
  | .ret => if rest.isEmpty then .halted else before
  | .fault => .faulted

theorem frames_append (i : Instruction) (top : Frame) (rest below : List Frame) :
    i.frames top (rest ++ below) = i.frames top rest ++ below := by
  cases i <;> rfl

theorem state_ne_paused (i : Instruction) (rest : List Frame) {before : RunState}
    (h : before ≠ .paused) : i.state rest before ≠ .paused := by
  cases i with
  | nop => exact h
  | call script => exact h
  | fault => exact RunState.noConfusion
  | ret =>
    cases rest with
    | nil => exact RunState.noConfusion
    | cons => exact h

theorem state_eq_halted_iff (i : Instruction) (top : Frame) (rest : List Frame) {before : RunState}
    (h : before ≠ .halted) : i.state rest before = .halted ↔ i.frames top rest = [] := by
  cases i with
  | nop => simp [state, frames, h]
  | call script => simp [state, frames, h]
  | fault => simp [state, frames]
  | ret => cases rest <;> simp [state, frames, h]

end Instruction

namespace Machine

/-- The instruction that a frame is about to execute. -/
def upcoming (m : Machine) (top : Frame) : Instruction :=
  (m.program.script top.script).instruction top.next

theorem execute_of_cons {m : Machine} {top : Frame} {rest : List Frame}
    (h : m.stack.frames = top :: rest) :
    m.execute = ⟨m.program, .ofList ((m.upcoming top).frames top rest),
      (m.upcoming top).state rest m.state, m.executed + 1⟩ := by
  have moved : m.stack.advance = .ofList (top.advance :: rest) := by
    apply Stack.ext
    simp [Stack.advance, Stack.ofList, Frame.advance, h]
  have popped : m.stack.advance.pop = .ofList rest := by
    rw [moved]
    rfl
  have pushed (f : Frame) : m.stack.advance.push f = .ofList (f :: top.advance :: rest) := by
    rw [moved]
    rfl
  unfold execute upcoming
  rw [h]
  simp only
  cases (m.program.script top.script).instruction top.next with
  | nop => simp only [perform, moved, Instruction.frames, Instruction.state]
  | call script => simp only [perform, pushed, Instruction.frames, Instruction.state]
  | ret =>
    simp only [perform, popped, Instruction.frames, Instruction.state]
    rfl
  | fault => simp only [perform, moved, Instruction.frames, Instruction.state]

theorem execute_of_nil {m : Machine} (h : m.stack.frames = []) :
    m.execute = { m with state := .halted } := by
  unfold execute
  rw [h]

theorem execute_ne_paused {m : Machine} (h : m.state ≠ .paused) : m.execute.state ≠ .paused := by
  cases frames : m.stack.frames with
  | nil =>
    rw [execute_of_nil frames]
    exact RunState.noConfusion
  | cons top rest =>
    rw [execute_of_cons frames]
    exact Instruction.state_ne_paused _ rest h

theorem execute_suffix {m : Machine} {upper below : List Frame}
    (h : m.stack.frames = upper ++ below) (busy : upper ≠ []) :
    below <:+ m.execute.stack.frames := by
  cases upper with
  | nil => exact absurd rfl busy
  | cons top rest =>
    rw [List.cons_append] at h
    rw [execute_of_cons h, Instruction.frames_append]
    exact List.suffix_append _ _

/-! ## Plain runs -/

/-- What holds of a machine that is executed plainly: it is never paused, and
it has halted where it has no frame left. -/
structure Plain (m : Machine) : Prop where
  unpaused : m.state ≠ .paused
  halted_iff : m.state = .halted ↔ m.stack.frames = []

namespace Plain

variable {m : Machine}

theorem start (program : Program) (frame : Frame) : (Machine.start program frame).Plain where
  unpaused := by simp [Machine.start]
  halted_iff := by simp [Machine.start, Stack.ofList]

theorem execute (h : m.Plain) : m.execute.Plain where
  unpaused := execute_ne_paused h.unpaused
  halted_iff := by
    cases frames : m.stack.frames with
    | nil =>
      rw [execute_of_nil frames]
      simp [frames]
    | cons top rest =>
      have going : m.state ≠ .halted := by
        intro halted
        rw [h.halted_iff, frames] at halted
        cases halted
      rw [execute_of_cons frames]
      exact Instruction.state_eq_halted_iff _ top rest going

theorem after (h : m.Plain) (k : Nat) : (Engine.execute^[k] m).Plain := by
  induction k with
  | zero => exact h
  | succ k ih =>
    rw [Function.iterate_succ_apply']
    exact ih.execute

theorem runnable (h : m.Plain) (live : m.state.isTerminal = false) : m.state = .runnable := by
  rcases RunState.runnable_or_paused live with runnable | paused
  · exact runnable
  · exact absurd paused h.unpaused

theorem busy (h : m.Plain) (live : m.state.isTerminal = false) : m.stack.frames ≠ [] := by
  intro none_left
  rw [h.halted_iff.mpr none_left] at live
  cases live

end Plain

theorem executed_after {m : Machine} (plain : m.Plain) {k : Nat}
    (live : ∀ i < k, (Engine.state (Engine.execute^[i] m)).isTerminal = false) :
    (Engine.execute^[k] m).executed = m.executed + k := by
  induction k with
  | zero => rfl
  | succ k ih =>
    have busy := (plain.after k).busy (live k (Nat.lt_succ_self k))
    rw [Function.iterate_succ_apply', ← Nat.add_assoc, ← ih fun i less => live i (Nat.lt_succ_of_lt less)]
    cases frames : (Engine.execute^[k] m).stack.frames with
    | nil => exact absurd frames busy
    | cons top rest =>
      show (Engine.execute^[k] m).execute.executed = _
      rw [execute_of_cons frames]

/-! ## On top of other frames -/

/-- The run state of a machine on top of other frames, by that of the machine
alone. -/
def landing (below : List Frame) : RunState → RunState
  | .halted => if below.isEmpty then .halted else .runnable
  | s => s

/-- The machine with its frames on top of `below`, where `before` instructions
had been executed when it started. -/
def onto (m : Machine) (below : List Frame) (before : Nat) : Machine where
  program := m.program
  stack := .ofList (m.stack.frames ++ below)
  state := landing below m.state
  executed := before + m.executed

theorem state_landing (i : Instruction) (rest below : List Frame) :
    i.state (rest ++ below) .runnable = landing below (i.state rest .runnable) := by
  cases i with
  | nop => rfl
  | call script => rfl
  | fault => rfl
  | ret => cases rest <;> rfl

theorem execute_onto {m : Machine} (runnable : m.state = .runnable) (busy : m.stack.frames ≠ [])
    (below : List Frame) (before : Nat) :
    (m.onto below before).execute = m.execute.onto below before := by
  cases frames : m.stack.frames with
  | nil => exact absurd frames busy
  | cons top rest =>
    have on_top : (m.onto below before).stack.frames = top :: (rest ++ below) := by
      simp [onto, Stack.ofList, frames]
    have same : (m.onto below before).upcoming top = m.upcoming top := rfl
    have shown : (m.onto below before).state = .runnable := by
      simp [onto, landing, runnable]
    -- The frames below only matter to a return of the last frame on top.
    rw [execute_of_cons frames, execute_of_cons on_top, same, shown, runnable, state_landing,
      Instruction.frames_append]
    rfl

theorem after_onto {m : Machine} (plain : m.Plain) {k : Nat}
    (live : ∀ i < k, (Engine.state (Engine.execute^[i] m)).isTerminal = false)
    (below : List Frame) (before : Nat) :
    Engine.execute^[k] (m.onto below before) = (Engine.execute^[k] m).onto below before := by
  induction k with
  | zero => rfl
  | succ k ih =>
    have now := live k (Nat.lt_succ_self k)
    have alone := plain.after k
    rw [Function.iterate_succ_apply', Function.iterate_succ_apply', ih fun i less => live i (Nat.lt_succ_of_lt less)]
    exact execute_onto (alone.runnable now) (alone.busy now) below before

end Machine

/-- A script that calls one that calls another: eight instructions in all. -/
def Program.nested : Program :=
  #[⟨[1], #[.call 1, .nop, .ret]⟩, ⟨[2], #[.nop, .call 2, .ret]⟩, ⟨[3], #[.nop, .ret]⟩]

/-- `Program.nested` in its second script, before the call of the third. -/
def Machine.inner : Machine :=
  ⟨.nested, .ofList [⟨1, 1⟩, ⟨0, 1⟩], .paused, 2⟩

end ScriptDebugger
