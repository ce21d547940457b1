/-
  Recording events

  A recorder keeps the events it takes in, in order, until it holds as many as
  its limit allows.

  Correspondence (stepvm ↔ here):
    `RecordingTracer`     ↔ `Recorder`
    `new`, `with_limit`   ↔ `unlimited`, `withLimit`
    `step_count`          ↔ `stepCount`
-/
import ScriptDebugger.Tracer

namespace ScriptDebugger

/-- A tracer that keeps events. -/
structure Recorder where
  events : Array Event
  limit : Option Nat

namespace Recorder

def unlimited : Recorder := ⟨#[], none⟩

/-- A recorder that keeps the first `limit` events. -/
def withLimit (limit : Nat) : Recorder := ⟨#[], some limit⟩

/-- Whether the recorder keeps no further event. -/
def full (r : Recorder) : Bool :=
  match r.limit with
  | none => false
  | some limit => limit ≤ r.events.size

/-- Keeps an event, if there is room. -/
def keep (r : Recorder) (e : Event) : Recorder :=
  if r.full then r else { r with events := r.events.push e }

instance : Tracer Recorder := ⟨keep⟩

def stepCount (r : Recorder) : Nat := r.events.countP Event.isStep

end Recorder

end ScriptDebugger
