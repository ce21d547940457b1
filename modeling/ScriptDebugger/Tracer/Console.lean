/-
  A stepping log for the console

  The console prints one line an event. With a limit it prints that many lines
  for instructions, then says that the limit is reached, and from there on
  prints only changes to the breakpoints. The limit is looked at after an
  instruction's line is printed, so the first instruction has its line
  whatever the limit.

  Correspondence (stepvm ↔ here):
    `StderrTracer`                ↔ `Console`
    `limit`, `count`, `stopped`   ↔ `limit`, `steps`, `quiet`
    what is written to the stream ↔ `lines`
-/
import ScriptDebugger.Text.Decimal
import ScriptDebugger.Text.Hex
import ScriptDebugger.Tracer

namespace ScriptDebugger

structure Console where
  limit : Option Nat
  steps : Nat
  quiet : Bool
  lines : Array String

namespace Console

def unlimited : Console := ⟨none, 0, false, #[]⟩

/-- A console that goes quiet after `limit` instructions. -/
def withLimit (limit : Nat) : Console := ⟨some limit, 0, false, #[]⟩

def place (l : Location) : String := "0x" ++ Hex.text l.script ++ "@" ++ Decimal.natText l.offset.toNat

def line : Event → String
  | .step depth state => "step  depth=" ++ Decimal.natText depth ++ "  state=" ++ state.name
  | .hit l => "  !!! BREAK " ++ place l
  | .stateChange old new => "  ... " ++ old.name ++ " -> " ++ new.name
  | .added l => "  +++ breakpoint " ++ place l
  | .removed l => "  --- breakpoint " ++ place l

/-- The line that says that the limit is reached. -/
def limitLine (limit : Nat) : String :=
  "--- trace limit reached (" ++ Decimal.natText limit ++ " steps) ---"

def print (c : Console) (text : String) : Console := { c with lines := c.lines.push text }

/-- Goes quiet if the limit is reached. -/
def checkLimit (c : Console) : Console :=
  match c.limit with
  | none => c
  | some limit =>
    if limit ≤ c.steps then { c.print (limitLine limit) with quiet := true } else c

/-- Whether an event is one that a quiet console leaves out. -/
def optional : Event → Bool
  | .step .. | .hit .. | .stateChange .. => true
  | .added .. | .removed .. => false

def count (c : Console) (e : Event) : Console :=
  if e.isStep then checkLimit { c with steps := c.steps + 1 } else c

/-- Prints what there is to print about an event. -/
def report (c : Console) (e : Event) : Console :=
  if c.quiet && optional e then c else (c.print (line e)).count e

instance : Tracer Console := ⟨report⟩

end Console

end ScriptDebugger
