/-
  A machine that runs scripts

  A program is a list of scripts, each a list of instructions: do nothing,
  call another script, return, or fault. The machine starts in script 0. Each
  frame remembers its next instruction; running off the end of a script is a
  return, and the machine halts when the last frame returns. A fault leaves
  the frames as they are.

  Correspondence (stepvm ↔ here):
    `ScriptedEngine`                      ↔ `Machine`
    `ScriptedEngine::new`                 ↔ `Machine.load`
    `Script.ops`                          ↔ `Script.body`
    `Op`                                  ↔ `Instruction`
    `Nop`, `Call`, `Ret`, `Fault`         ↔ `nop`, `call`, `ret`, `fault`
    `Frame.script`, `Frame.ip`            ↔ `Frame.script`, `Frame.next`
    `frames`                              ↔ `Machine.stack`
    `push_frame`, `pop_frame`             ↔ `Stack.push`, `Stack.pop`
    `invocation_depth`                    ↔ `Stack.depth`
    `current_context`                     ↔ `context?`
    `execute_next`                        ↔ `execute`
  There the topmost frame is the last one, and each frame has a copy of the hash
  of its script. A script that is not there, script 0 of no scripts or one that
  is called out of range, is an error there and an empty script here. Offsets are
  numbers of 32 bits in both; here the one after the last is 0.
-/
import ScriptDebugger.Engine

namespace ScriptDebugger

inductive Instruction where
  | nop
  /-- Calls the script with this number at its first instruction. -/
  | call (script : Nat)
  | ret
  | fault
  deriving DecidableEq, Repr

/-- A script, known by its hash. -/
structure Script where
  hash : Bytes
  body : Array Instruction
  deriving DecidableEq, Repr

abbrev Program := Array Script

/-- The script with a number. A number that is out of range stands for a
script without instructions and with an empty hash. -/
def Program.script (p : Program) (number : Nat) : Script := p[number]?.getD ⟨[], #[]⟩

/-- The instruction at an offset of a script: a return past the end. -/
def Script.instruction (s : Script) (offset : UInt32) : Instruction :=
  s.body[offset.toNat]?.getD .ret

/-- An invocation of a script and its next instruction. -/
structure Frame where
  script : Nat
  next : UInt32
  deriving DecidableEq, Repr

/-- An invocation stack, the topmost frame first. It knows its own depth, so
that asking for it costs nothing however deep the stack is. -/
structure Stack where
  frames : List Frame
  depth : Nat
  depth_eq : depth = frames.length
  deriving DecidableEq

namespace Stack

theorem ext {s t : Stack} (h : s.frames = t.frames) : s = t := by
  obtain ⟨frames, depth, e⟩ := s
  obtain ⟨frames', depth', e'⟩ := t
  cases h
  cases e
  cases e'
  rfl

def ofList (frames : List Frame) : Stack := ⟨frames, frames.length, rfl⟩

def push (s : Stack) (f : Frame) : Stack :=
  ⟨f :: s.frames, s.depth + 1, by rw [s.depth_eq, List.length_cons]⟩

def pop (s : Stack) : Stack :=
  ⟨s.frames.tail, s.depth - 1, by rw [s.depth_eq, List.length_tail]⟩

/-- Moves the topmost frame to its next instruction. -/
def advance (s : Stack) : Stack :=
  ⟨s.frames.modifyHead fun f => { f with next := f.next + 1 }, s.depth, by
    rw [s.depth_eq, List.length_modifyHead]⟩

end Stack

/-- A machine: its program, its invocation stack, its run state, and how many
instructions it has executed. -/
structure Machine where
  program : Program
  stack : Stack
  state : RunState
  executed : Nat
  deriving DecidableEq

namespace Machine

/-- A machine about to execute a frame. -/
def start (program : Program) (frame : Frame) : Machine :=
  ⟨program, Stack.ofList [frame], .runnable, 0⟩

/-- A machine at the first instruction of script 0. -/
def load (program : Program) : Machine := start program ⟨0, 0⟩

/-- What an instruction does once its frame has moved on. -/
def perform (m : Machine) : Instruction → Machine
  | .nop => m
  | .call script => { m with stack := m.stack.push ⟨script, 0⟩ }
  | .ret =>
    { m with
      stack := m.stack.pop
      state := if m.stack.pop.frames.isEmpty then .halted else m.state }
  | .fault => { m with state := .faulted }

/-- Executes the next instruction of the topmost frame. Without a frame the
machine halts and nothing is executed. -/
def execute (m : Machine) : Machine :=
  match m.stack.frames with
  | [] => { m with state := .halted }
  | top :: _ =>
    perform { m with stack := m.stack.advance, executed := m.executed + 1 }
      ((m.program.script top.script).instruction top.next)

def context? (m : Machine) : Option Location :=
  m.stack.frames.head?.map fun top => ⟨(m.program.script top.script).hash, top.next⟩

instance : Engine Machine where
  state := Machine.state
  setState s m := { m with state := s }
  depth m := m.stack.depth
  context? := Machine.context?
  execute := Machine.execute

end Machine

end ScriptDebugger
